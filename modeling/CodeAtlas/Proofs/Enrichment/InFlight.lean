import CodeAtlas.Proofs.Enrichment.Courses
import Mathlib.Data.List.DropRight

/-!
# Functions that are being enriched

A function that has been taken out and not been settled is in none of the queue's sets, and others
may use the queue meanwhile. So offers, takings and settlings come in any order here, and a function
that is in flight can be cancelled. Processing a function is one taking and one settling, with the
steps of others in between (`ends_processNext_amid`).

Where a function *stands* is settled by its turns alone: when it entered, was taken, was settled
(`standing_run`). Entering takes it out of the other sets; settling does not. Hence a function is in
one set only if it

  still waits and has not been settled since it entered, or
  has been taken since then and was settled, always in the same way

(`inOneSet_iff`). It is in two sets after it has been offered again while it was in flight, and in
none after it has been cancelled. Without these two the sets keep the function between them
(`inOneSet_of_calm`).
-/

namespace CodeAtlas.Enrichment

open Syntax (FunctionKey)

/-- What decides membership among keys, under one name. -/
local instance lawfulBEq_functionKey : LawfulBEq FunctionKey := inferInstance

/-- A queue and the items that have been taken out and not been settled. -/
structure Workshop where
  queue : Queue
  inFlight : List Item

/-- What happens next. An item is cancelled when the scheduler is stopped meanwhile. -/
inductive Step
  | offer (item : Item) (force : Bool)
  | take
  | settle (item : Item) (success : Bool)
  | cancel (item : Item)

/-- What happens to one function. -/
inductive Turn
  | entered
  | taken
  | settled (success : Bool)
  deriving DecidableEq

namespace Workshop

def new (capacity : Int) : Workshop := ⟨.empty capacity, []⟩

/-- Only what is in flight can be settled. -/
def step (w : Workshop) : Step → Workshop
  | .offer item force => { w with queue := (w.queue.offer item force).1 }
  | .take =>
    match w.queue.take with
    | some (item, queue) => ⟨queue, w.inFlight ++ [item]⟩
    | none => w
  | .settle item success =>
    if item ∈ w.inFlight then ⟨w.queue.settle item.key success, w.inFlight.erase item⟩ else w
  | .cancel item => { w with inFlight := w.inFlight.erase item }

def run (w : Workshop) (steps : List Step) : Workshop := steps.foldl step w

/-- What a step is for a function. -/
def turn? (k : FunctionKey) (w : Workshop) : Step → Option Turn
  | .offer item force =>
    if item.key = k ∧ k ∉ w.queue.keys ∧ (w.queue.offer item force).2 = .pending then some .entered
    else none
  | .take => if w.queue.keys.head? = some k then some .taken else none
  | .settle item success =>
    if item.key = k ∧ item ∈ w.inFlight then some (.settled success) else none
  | .cancel _ => none

/-- The turns of a function, in order. -/
def story (k : FunctionKey) : Workshop → List Step → List Turn
  | _, [] => []
  | w, s :: ss => (w.turn? k s).toList ++ story k (w.step s) ss

end Workshop

/-- The sets that a function is in. -/
structure Standing where
  waits : Bool
  processed : Bool
  failed : Bool
  deriving DecidableEq

def Standing.after (s : Standing) : Turn → Standing
  | .entered => ⟨true, false, false⟩
  | .taken => { s with waits := false }
  | .settled true => { s with processed := true }
  | .settled false => { s with failed := true }

def standing (k : FunctionKey) (q : Queue) : Standing :=
  ⟨decide (k ∈ q.keys), decide (k ∈ q.processed), decide (k ∈ q.failed)⟩

/-- One of the sets, and no other. -/
def Standing.InOneSet (s : Standing) : Prop :=
  s = ⟨true, false, false⟩ ∨ s = ⟨false, true, false⟩ ∨ s = ⟨false, false, true⟩

instance (s : Standing) : Decidable s.InOneSet := inferInstanceAs (Decidable (_ ∨ _))

/-- The turns since the function entered last. -/
def sinceEntry (turns : List Turn) : List Turn := turns.rtakeWhile fun t ↦ decide (t ≠ .entered)

/-- The function was not taken and not settled, or it was taken and settled in one way. -/
def Unspoiled (turns : List Turn) : Prop :=
  (.taken ∉ turns ∧ ∀ success, .settled success ∉ turns) ∨
    (.taken ∈ turns ∧ ∃ success, .settled success ∈ turns ∧ .settled (!success) ∉ turns)

variable {k : FunctionKey} {w : Workshop} {s : Step} {q : Queue} {turns : List Turn}

/-! ## Processing amid the steps of others -/

/-- The queue answers for itself, and others take any steps while a service is asked. They may do
everything but settle or cancel the item. -/
def Workshop.AnswersAmid (item : Item) : Answering Workshop
  | .takeItem, w, x, w' => x = .ok w.queue.pending.head? ∧ w' = w.step .take
  | .settle key success, w, x, w' =>
    x = .ok () ∧ w' = ⟨w.queue.settle key success, w.inFlight.erase item⟩
  | .note _, w, x, w' => x = .ok () ∧ w' = w
  | _, w, _, w' => item ∈ w.inFlight → item ∈ w'.inFlight ∧ ∃ steps, w' = w.run steps

theorem step_settle {item : Item} (h : item ∈ w.inFlight) (success : Bool) :
    w.step (.settle item success)
      = ⟨w.queue.settle item.key success, w.inFlight.erase item⟩ := if_pos h

theorem run_cons (w : Workshop) (s : Step) (steps : List Step) :
    w.run (s :: steps) = (w.step s).run steps := rfl

theorem run_append (w : Workshop) (steps steps' : List Step) :
    w.run (steps ++ steps') = (w.run steps).run steps' := List.foldl_append

/-- While the services are asked, others take steps, and the item stays in flight. -/
theorem exists_run_of_serving {item : Item} {w' : Workshop} (hitem : item ∈ w.inFlight)
    (h : Relation.ReflTransGen (Workshop.AnswersAmid item).Serving w w') :
    item ∈ w'.inFlight ∧ ∃ steps, w' = w.run steps := by
  induction h with
  | refl => exact ⟨hitem, [], rfl⟩
  | @tail w₁ w₂ _ hserving ih =>
    obtain ⟨hflight, steps, rfl⟩ := ih
    obtain ⟨r, x, hservice, hanswer⟩ := hserving
    have hothers : item ∈ w₂.inFlight ∧ ∃ steps', w₂ = (w.run steps).run steps' := by
      cases r <;> first | exact hanswer hflight | exact Bool.noConfusion hservice
    obtain ⟨hflight', steps', hrun⟩ := hothers
    exact ⟨hflight', steps ++ steps', hrun.trans (run_append _ _ _).symm⟩

/-- **Processing a function is a taking and a settling**, and others take their steps in between. -/
theorem ends_processNext_amid {limit : Int} {item : Item} {rest : List Item}
    {log : List Exchange} (hw : w.queue.pending = item :: rest) :
    (processNext limit).Ends (Workshop.AnswersAmid item).logged (fun x h ↦
      ∃ steps course success, Course limit item course success ∧ x = .ok (some success) ∧
        h.1 = w.run (.take :: steps ++ [.settle item success]) ∧
        services h.2 = services log ++ course) (w, log) := by
  have htake : ∀ x w', Workshop.AnswersAmid item .takeItem w x w' →
      x = .ok (some item) ∧ w' = w.step .take := by
    intro x w' hx
    rwa [Workshop.AnswersAmid, hw] at hx
  refine (ends_processNext_of htake (fun _ _ _ _ hx ↦ hx) fun _ _ _ _ hx ↦ hx).mono ?_
  rintro x h ⟨w₁, course, success, hserving, hcourse, hx, hsettled, -, hsaid⟩
  have hflight : item ∈ (w.step .take).inFlight := by
    rw [Workshop.step, Queue.take, hw]
    exact List.mem_concat_self
  obtain ⟨hflight₁, steps, rfl⟩ := exists_run_of_serving hflight hserving
  refine ⟨steps, course, success, hcourse, hx, ?_, hsaid⟩
  rw [hsettled, List.cons_append, run_cons, run_append, run_cons, step_settle hflight₁]
  rfl

/-! ## Standing -/

theorem foldl_after_eq (h : .entered ∈ turns) (st : Standing) :
    turns.foldl Standing.after st
      = (sinceEntry turns).foldl Standing.after ⟨true, false, false⟩ := by
  -- From the last turn backwards: if it is an entry, what was before does not matter.
  induction turns using List.reverseRecOn with
  | nil => exact absurd h List.not_mem_nil
  | append_singleton turns t ih =>
    rw [List.foldl_concat, sinceEntry]
    by_cases ht : t = .entered
    · rw [List.rtakeWhile_concat_neg _ _ _ (by simpa using ht), ht]
      rfl
    · rw [List.rtakeWhile_concat_pos _ _ _ (by simpa using ht), List.foldl_concat]
      have hearlier : .entered ∈ turns := by
        rcases List.mem_append.mp h with h | h
        · exact h
        · exact absurd (List.mem_singleton.mp h).symm ht
      rw [ih hearlier]
      rfl

/-- Where a function stands that has not entered again. -/
theorem foldl_after_of_not_mem (h : .entered ∉ turns) :
    turns.foldl Standing.after ⟨true, false, false⟩ = ⟨decide (.taken ∉ turns),
      decide (.settled true ∈ turns), decide (.settled false ∈ turns)⟩ := by
  induction turns using List.reverseRecOn with
  | nil => rfl
  | append_singleton turns t ih =>
    rw [List.mem_append, not_or] at h
    rw [List.foldl_concat, ih h.1]
    cases t with
    | entered => exact absurd List.mem_cons_self h.2
    | taken => simp [Standing.after]
    | settled success => cases success <;> simp [Standing.after]

theorem entered_notMem_sinceEntry : .entered ∉ sinceEntry turns := by
  intro h
  rw [sinceEntry] at h
  simpa using List.mem_rtakeWhile_imp h

theorem inOneSet_iff_unspoiled : Standing.InOneSet ⟨decide (.taken ∉ turns),
      decide (.settled true ∈ turns), decide (.settled false ∈ turns)⟩ ↔ Unspoiled turns := by
  rw [Standing.InOneSet, Unspoiled, Bool.exists_bool, Bool.forall_bool]
  by_cases htaken : .taken ∈ turns <;> by_cases hstored : .settled true ∈ turns <;>
    by_cases hfailed : .settled false ∈ turns <;> simp [htaken, hstored, hfailed]

/-! ## Steps -/

theorem standing_of_iff {q q' : Queue} (hkeys : k ∈ q'.keys ↔ k ∈ q.keys)
    (hprocessed : k ∈ q'.processed ↔ k ∈ q.processed) (hfailed : k ∈ q'.failed ↔ k ∈ q.failed) :
    standing k q' = standing k q := by
  simp only [standing, hkeys, hprocessed, hfailed]

/-- An offer changes where a function stands only if the function enters. -/
theorem standing_offer (item : Item) (force : Bool) :
    standing k (w.step (.offer item force)).queue
      = (w.turn? k (.offer item force)).toList.foldl Standing.after (standing k w.queue) := by
  rw [Workshop.step, Workshop.turn?]
  rcases w.queue.offer_cases item force with ⟨hmem, hoffer⟩ | ⟨hnew, -, hoffer⟩ |
    ⟨hnew, -, -, hoffer⟩ | ⟨hnew, -, -, hoffer⟩ <;> rw [hoffer]
  -- Refreshing is no turn, since the function waits already.
  · have hnone : ¬ (item.key = k ∧ k ∉ w.queue.keys ∧ Verdict.pending = .pending) := by
      rintro ⟨rfl, hnot, -⟩
      exact hnot hmem
    rw [if_neg hnone]
    exact standing_of_iff (Queue.keys_refresh item w.queue ▸ Iff.rfl) Iff.rfl Iff.rfl
  · rw [if_neg (by simp)]
    rfl
  · rw [if_neg (by simp)]
    rfl
  · by_cases hk : item.key = k
    · subst hk
      rw [if_pos ⟨rfl, hnew, rfl⟩]
      have hwaits : item.key ∈ (w.queue.enter item).keys := by
        rw [Queue.keys_enter]
        exact List.mem_concat_self
      simp [standing, hwaits, Queue.mem_processed_enter, Queue.mem_failed_enter, Standing.after]
    · rw [if_neg fun h ↦ hk h.1]
      have hne : k ≠ item.key := Ne.symm hk
      refine standing_of_iff ?_ ?_ ?_
      · simp [Queue.keys_enter, hne]
      · simp [Queue.mem_processed_enter, hne]
      · simp [Queue.mem_failed_enter, hne]

/-- A function that is taken out does not wait any more, since it waited once. -/
theorem standing_take (hw : w.queue.keys.Nodup) : standing k (w.step .take).queue
    = (w.turn? k .take).toList.foldl Standing.after (standing k w.queue) := by
  rw [Workshop.step, Workshop.turn?, Queue.take]
  cases hpending : w.queue.pending with
  | nil =>
    have hkeys : w.queue.keys = [] := by rw [Queue.keys, hpending, List.map_nil]
    rw [hkeys]
    rfl
  | cons item rest =>
    have hkeys : w.queue.keys = item.key :: rest.map Item.key := by
      rw [Queue.keys, hpending, List.map_cons]
    have hrest : Queue.keys { w.queue with pending := rest } = rest.map Item.key := rfl
    have hhead : w.queue.keys.head? = some k ↔ item.key = k := by
      rw [hkeys, List.head?_cons, Option.some_inj]
    rw [hkeys, List.nodup_cons] at hw
    by_cases hk : item.key = k
    · rw [if_pos (hhead.mpr hk)]
      subst hk
      simp [standing, hrest, hw.1, Standing.after]
    · rw [if_neg (mt hhead.mp hk)]
      refine standing_of_iff ?_ Iff.rfl Iff.rfl
      rw [hrest, hkeys, List.mem_cons]
      exact (or_iff_right (Ne.symm hk)).symm

/-- A function that is settled is put into one set, and nothing is taken out of the other. -/
theorem standing_settle (item : Item) (success : Bool) :
    standing k (w.step (.settle item success)).queue
      = (w.turn? k (.settle item success)).toList.foldl Standing.after (standing k w.queue) := by
  rw [Workshop.step, Workshop.turn?]
  by_cases hflight : item ∈ w.inFlight
  · have hkeys : (w.queue.settle item.key success).keys = w.queue.keys :=
      congrArg (List.map Item.key) (Queue.pending_settle _ _ _)
    rw [if_pos hflight]
    by_cases hk : item.key = k
    · subst hk
      rw [if_pos ⟨rfl, hflight⟩]
      cases success <;>
        simp [standing, hkeys, Queue.mem_processed_settle, Queue.mem_failed_settle, Standing.after]
    · rw [if_neg fun h ↦ hk h.1]
      have hne : k ≠ item.key := Ne.symm hk
      refine standing_of_iff (hkeys ▸ Iff.rfl) ?_ ?_
      · simp [Queue.mem_processed_settle, hne]
      · simp [Queue.mem_failed_settle, hne]
  · rw [if_neg hflight, if_neg fun h ↦ hflight h.2]
    rfl

/-- **A step changes where a function stands as its turn says.** -/
theorem standing_step (hw : w.queue.keys.Nodup) (s : Step) : standing k (w.step s).queue
    = (w.turn? k s).toList.foldl Standing.after (standing k w.queue) := by
  cases s with
  | offer item force => exact standing_offer item force
  | take => exact standing_take hw
  | settle item success => exact standing_settle item success
  | cancel item => rfl

theorem nodup_keys_new (capacity : Int) : (Workshop.new capacity).queue.keys.Nodup :=
  List.nodup_nil

theorem nodup_keys_step (hw : w.queue.keys.Nodup) (s : Step) :
    (w.step s).queue.keys.Nodup := by
  cases s with
  | offer item force => exact Queue.nodup_keys_offer hw item force
  | take =>
    rw [Workshop.step, Queue.take]
    rw [Queue.keys] at hw
    cases hpending : w.queue.pending with
    | nil => exact hw
    | cons item rest =>
      rw [hpending, List.map_cons] at hw
      exact hw.of_cons
  | settle item success =>
    rw [Workshop.step]
    split
    · exact (Queue.keys_settle w.queue item.key success).symm ▸ hw
    · exact hw
  | cancel item => exact hw

/-! ## Runs -/

/-- **The standing of a function is settled by its turns.** -/
theorem standing_run (hw : w.queue.keys.Nodup) (steps : List Step) :
    standing k (w.run steps).queue
      = (w.story k steps).foldl Standing.after (standing k w.queue) := by
  induction steps generalizing w with
  | nil => rfl
  | cons s steps ih =>
    rw [run_cons, ih (nodup_keys_step hw s), standing_step hw, Workshop.story, List.foldl_append]

theorem story_append (w : Workshop) (steps steps' : List Step) :
    w.story k (steps ++ steps') = w.story k steps ++ (w.run steps).story k steps' := by
  induction steps generalizing w with
  | nil => rfl
  | cons s steps ih =>
    rw [List.cons_append, Workshop.story, Workshop.story, ih, run_cons, List.append_assoc]

/-- One of the steps is an offer of the function, and it is accepted. -/
def Accepted (k : FunctionKey) (w : Workshop) (steps : List Step) : Prop :=
  ∃ earlier item force, earlier ++ [.offer item force] <+: steps ∧ item.key = k ∧
    ((w.run earlier).queue.offer item force).2 = .pending

/-- What has not entered does not wait. -/
theorem waits_foldl_after (h : .entered ∉ turns) {st : Standing} (hst : st.waits = false) :
    (turns.foldl Standing.after st).waits = false := by
  induction turns generalizing st with
  | nil => exact hst
  | cons t turns ih =>
    rw [List.mem_cons, not_or] at h
    refine ih h.2 ?_
    cases t with
    | entered => exact absurd rfl h.1
    | taken => rfl
    | settled success => cases success <;> exact hst

/-- A function that was accepted has entered, if not at that time then before. -/
theorem entered_of_accepted {capacity : Int} {steps : List Step}
    (h : Accepted k (.new capacity) steps) : .entered ∈ (Workshop.new capacity).story k steps := by
  obtain ⟨earlier, item, force, ⟨later, rfl⟩, rfl, hoffer⟩ := h
  rw [story_append]
  refine List.mem_append_left _ ?_
  -- After the offer it waits, and only an entry makes it wait.
  by_contra hnot
  have hwaits :
      item.key ∈ ((Workshop.new capacity).run (earlier ++ [.offer item force])).queue.keys := by
    rw [run_append]
    exact (Queue.offer_eq_pending_iff _ item force).mp hoffer
  have hstanding := congrArg Standing.waits
    (standing_run (k := item.key) (nodup_keys_new capacity) (earlier ++ [.offer item force]))
  rw [waits_foldl_after hnot rfl] at hstanding
  exact of_decide_eq_false hstanding hwaits

/-- **When a function stands in one set.** After any steps, a function that was ever accepted is in
exactly one of the sets if it was not taken and not settled since it last entered, or if it was
taken and settled in one way only. In all other cases it is in none or in several. -/
theorem inOneSet_iff (capacity : Int) (steps : List Step) (k : FunctionKey)
    (h : Accepted k (.new capacity) steps) :
    (standing k ((Workshop.new capacity).run steps).queue).InOneSet ↔
      Unspoiled (sinceEntry ((Workshop.new capacity).story k steps)) := by
  rw [standing_run (nodup_keys_new capacity), foldl_after_eq (entered_of_accepted h),
    foldl_after_of_not_mem entered_notMem_sinceEntry, inOneSet_iff_unspoiled]

/-- A function that is offered again while it is in flight is settled alike both times. -/
def settledAlike : List Step :=
  let item : Item := ⟨"1", "sort", "a.ts", "", 1, 1⟩
  [.offer item false, .take, .offer item false, .settle item true, .take, .settle item true]

theorem inOneSet_iff_settledAlike :
    Accepted ("sort", "a.ts") (.new 1) settledAlike ∧
      (standing ("sort", "a.ts") ((Workshop.new 1).run settledAlike).queue).InOneSet := by
  have haccepted : Accepted ("sort", "a.ts") (.new 1) settledAlike :=
    ⟨[], _, false, List.prefix_append _ _, rfl, rfl⟩
  have hstory : sinceEntry ((Workshop.new 1).story ("sort", "a.ts") settledAlike)
      = [.settled true, .taken, .settled true] := by decide
  refine ⟨haccepted, (inOneSet_iff 1 settledAlike _ haccepted).mpr ?_⟩
  rw [hstory]
  exact Or.inr ⟨by decide, true, by decide, by decide⟩

/-- A function that is offered again while it is in flight waits and has been processed. -/
def offeredInFlight : List Step :=
  let item : Item := ⟨"1", "sort", "a.ts", "", 1, 1⟩
  [.offer item false, .take, .offer item false, .settle item true]

/-- It is settled twice, in different ways. -/
def settledTwice : List Step :=
  let item : Item := ⟨"1", "sort", "a.ts", "", 1, 1⟩
  [.offer item false, .take, .offer item false, .take, .settle item true, .settle item false]

/-- The scheduler is stopped while it is in flight. -/
def stoppedInFlight : List Step :=
  let item : Item := ⟨"1", "sort", "a.ts", "", 1, 1⟩
  [.offer item false, .take, .cancel item]

theorem not_forall_inOneSet : ¬ ∀ (capacity : Int) (steps : List Step) (k : FunctionKey),
    1 ≤ capacity → Accepted k (.new capacity) steps →
    ((Workshop.new capacity).run steps).inFlight = [] →
    (standing k ((Workshop.new capacity).run steps).queue).InOneSet := by
  intro h
  have haccepted : Accepted ("sort", "a.ts") (.new 1) offeredInFlight :=
    ⟨[], _, false, List.prefix_append _ _, rfl, rfl⟩
  have hone := h 1 offeredInFlight ("sort", "a.ts") (by decide) haccepted (by decide)
  revert hone
  decide

example : standing ("sort", "a.ts") ((Workshop.new 1).run settledTwice).queue
    = ⟨false, true, true⟩ := by decide

example : standing ("sort", "a.ts") ((Workshop.new 1).run stoppedInFlight).queue
    = ⟨false, false, false⟩ := by decide

/-! ## Calm runs -/

/-- How often a function is in flight. -/
def countInFlight (k : FunctionKey) (w : Workshop) : Nat := (w.inFlight.map Item.key).count k

/-- The function is offered while it is in flight, or cancelled. -/
def Step.Disturbs (k : FunctionKey) (w : Workshop) : Step → Prop
  | .offer item _ => item.key = k ∧ countInFlight k w ≠ 0
  | .cancel item => item.key = k ∧ item ∈ w.inFlight
  | _ => False

/-- No step disturbs the function. -/
def Calm (k : FunctionKey) : Workshop → List Step → Prop
  | _, [] => True
  | w, s :: ss => ¬ s.Disturbs k w ∧ Calm k (w.step s) ss

theorem count_erase {item : Item} (h : item ∈ w.inFlight) :
    countInFlight k w = ((w.inFlight.erase item).map Item.key).count k
      + if item.key = k then 1 else 0 := by
  rw [countInFlight, ((List.perm_cons_erase h).map Item.key).count_eq, List.map_cons,
    List.count_cons]
  simp only [beq_iff_eq]

/-- Being taken and being settled are the turns in which a function comes into flight and leaves
it. -/
theorem countInFlight_step (hs : ¬ s.Disturbs k w) :
    countInFlight k (w.step s) = match w.turn? k s with
      | some .taken => countInFlight k w + 1
      | some (.settled _) => countInFlight k w - 1
      | _ => countInFlight k w := by
  cases s with
  | offer item force =>
    rw [Workshop.turn?]
    split_ifs <;> rfl
  | take =>
    rw [Workshop.turn?, Workshop.step, Queue.take, Queue.keys]
    cases hpending : w.queue.pending with
    | nil => rfl
    | cons item rest =>
      have hcount : countInFlight k ⟨{ w.queue with pending := rest }, w.inFlight ++ [item]⟩
          = countInFlight k w + if item.key = k then 1 else 0 := by
        simp [countInFlight, List.count_append, List.count_singleton]
      have hhead : ((item :: rest).map Item.key).head? = some k ↔ item.key = k := by
        rw [List.map_cons, List.head?_cons, Option.some_inj]
      by_cases hk : item.key = k
      · rw [if_pos (hhead.mpr hk)]
        rw [if_pos hk] at hcount
        exact hcount
      · rw [if_neg (mt hhead.mp hk)]
        rw [if_neg hk] at hcount
        exact hcount
  | settle item success =>
    rw [Workshop.turn?, Workshop.step]
    by_cases hflight : item ∈ w.inFlight
    · have hcount := count_erase (k := k) hflight
      rw [if_pos hflight]
      by_cases hk : item.key = k
      · rw [if_pos hk] at hcount
        rw [if_pos ⟨hk, hflight⟩]
        exact (Nat.sub_eq_of_eq_add hcount).symm
      · rw [if_neg hk] at hcount
        rw [if_neg fun h ↦ hk h.1]
        exact hcount.symm
    · rw [if_neg hflight, if_neg fun h ↦ hflight h.2]
  | cancel item =>
    have hcount : ((w.inFlight.erase item).map Item.key).count k = countInFlight k w := by
      by_cases hflight : item ∈ w.inFlight
      · have hk : item.key ≠ k := fun hk ↦ hs ⟨hk, hflight⟩
        rw [count_erase hflight, if_neg hk, Nat.add_zero]
      · rw [List.erase_of_not_mem hflight, countInFlight]
    exact hcount

/-- The function is in one set and not in flight, or in flight once and in no set. -/
def Whole (k : FunctionKey) (w : Workshop) : Prop :=
  (countInFlight k w = 0 ∧ (standing k w.queue).InOneSet) ∨
    (countInFlight k w = 1 ∧ standing k w.queue = ⟨false, false, false⟩)

/-- A function enters by an offer, is taken because it waits, and is settled because it is in
flight. -/
theorem turn?_eq_some {t : Turn} (h : w.turn? k s = some t) :
    (t = .entered ∧ ∃ item force, s = .offer item force ∧ item.key = k) ∨
      (t = .taken ∧ k ∈ w.queue.keys) ∨
      (∃ success, t = .settled success ∧ countInFlight k w ≠ 0) := by
  cases s with
  | offer item force =>
    rw [Workshop.turn?, Option.ite_none_right_eq_some] at h
    obtain ⟨⟨hk, -, -⟩, ht⟩ := h
    exact Or.inl ⟨(Option.some.inj ht).symm, item, force, rfl, hk⟩
  | take =>
    rw [Workshop.turn?, Option.ite_none_right_eq_some] at h
    obtain ⟨hhead, ht⟩ := h
    exact Or.inr (Or.inl ⟨(Option.some.inj ht).symm, List.mem_of_head? hhead⟩)
  | settle item success =>
    rw [Workshop.turn?, Option.ite_none_right_eq_some] at h
    obtain ⟨⟨rfl, hflight⟩, ht⟩ := h
    have hpos : 0 < countInFlight item.key w := List.count_pos_iff.mpr (List.mem_map_of_mem hflight)
    exact Or.inr (Or.inr ⟨success, (Option.some.inj ht).symm, Nat.ne_of_gt hpos⟩)
  | cancel item => cases h

/-- A calm step keeps a function whole, and it makes it whole when the function enters. -/
theorem whole_step (hw : w.queue.keys.Nodup) (hs : ¬ s.Disturbs k w)
    (h : w.turn? k s = some .entered ∨ Whole k w) : Whole k (w.step s) := by
  have hcount := countInFlight_step hs
  have hstanding := standing_step (k := k) hw s
  cases hturn : w.turn? k s with
  | none =>
    have hwhole : Whole k w := h.resolve_left (by simp [hturn])
    rw [hturn] at hcount hstanding
    rw [Whole, hcount, hstanding]
    exact hwhole
  | some t =>
    rw [hturn] at hcount hstanding
    rcases turn?_eq_some hturn with ⟨rfl, item, force, rfl, hk⟩ | ⟨rfl, hmem⟩ |
      ⟨success, rfl, hflight⟩
    -- It enters, so it is not in flight: otherwise the offer would disturb it.
    · have hzero : countInFlight k w = 0 := by
        by_contra hne
        exact hs ⟨hk, hne⟩
      exact Or.inl ⟨hcount.trans hzero, Or.inl hstanding⟩
    -- It is taken, so it waits, and among the standings of a whole function only one is left.
    · have hwhole : Whole k w := h.resolve_left (by simp [hturn])
      have hwaits : (standing k w.queue).waits = true := decide_eq_true hmem
      rcases hwhole with ⟨hzero, hset | hset | hset⟩ | ⟨-, hset⟩ <;> rw [hset] at hwaits hstanding
      · exact Or.inr ⟨hcount.trans (congrArg (· + 1) hzero), hstanding⟩
      · cases hwaits
      · cases hwaits
      · cases hwaits
    -- It is settled, so it was in flight and in no set.
    · have hwhole : Whole k w := h.resolve_left (by simp [hturn])
      rcases hwhole with ⟨hzero, -⟩ | ⟨hone, hset⟩
      · exact absurd hzero hflight
      · rw [hset] at hstanding
        refine Or.inl ⟨hcount.trans (congrArg (· - 1) hone), ?_⟩
        cases success with
        | true => exact Or.inr (Or.inl hstanding)
        | false => exact Or.inr (Or.inr hstanding)

theorem Whole.run (h : Whole k w) (hw : w.queue.keys.Nodup) {steps : List Step}
    (hcalm : Calm k w steps) : Whole k (w.run steps) := by
  induction steps generalizing w with
  | nil => exact h
  | cons s steps ih =>
    exact ih (whole_step hw hcalm.1 (Or.inr h)) (nodup_keys_step hw s) hcalm.2

/-- A function is whole from its first entry on. -/
theorem whole_of_entered (hw : w.queue.keys.Nodup) {steps : List Step} (hcalm : Calm k w steps)
    (h : .entered ∈ w.story k steps) : Whole k (w.run steps) := by
  induction steps generalizing w with
  | nil => exact absurd h List.not_mem_nil
  | cons s steps ih =>
    rw [Workshop.story, List.mem_append, Option.mem_toList] at h
    rcases h with h | h
    · exact (whole_step hw hcalm.1 (Or.inl h)).run (nodup_keys_step hw s) hcalm.2
    · exact ih (nodup_keys_step hw s) hcalm.2 h

/-- **Nothing is lost or counted twice in a calm run.** If a function is never offered while it is
in flight, and never cancelled, it is in exactly one of the sets when it is not in flight. -/
theorem inOneSet_of_calm {capacity : Int} {steps : List Step}
    (haccepted : Accepted k (.new capacity) steps) (hcalm : Calm k (.new capacity) steps)
    (hquiet : countInFlight k ((Workshop.new capacity).run steps) = 0) :
    (standing k ((Workshop.new capacity).run steps).queue).InOneSet := by
  have hwhole := whole_of_entered (nodup_keys_new capacity) hcalm (entered_of_accepted haccepted)
  rcases hwhole with ⟨-, hset⟩ | ⟨hone, -⟩
  · exact hset
  · exact absurd (hquiet.symm.trans hone) Nat.zero_ne_one

end CodeAtlas.Enrichment
