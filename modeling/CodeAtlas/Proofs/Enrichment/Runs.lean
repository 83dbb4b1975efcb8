import CodeAtlas.Proofs.Enrichment.History
import CodeAtlas.Rehearsal.Respond

/-!
# The enrichment queue in use

The queue is used by offers, by the processing of the oldest function and by draining it, one call
after the other. Whatever the services answer, everything that happens in such a run is lawful
(`lawful_moments`): an offer answers whether its function waits, functions are processed in the
order in which they entered, with what was offered for them last, and each is in the set then that
its course says.

Draining is processing one function after another (`run_drain`). The number of turns is set before
the first one, and this is enough, because each turn takes one function out.
-/

namespace CodeAtlas.Enrichment

open Program

/-- What is called from outside. -/
inductive QueueCall
  | offer (item : Item) (force : Bool)
  | processNext
  | drain

variable {σ : Type} (respond : Responder σ) (queue : σ → Queue) (limit : Int)

/-- The moment in which the oldest function is processed. -/
def processing (s : σ) : Moment :=
  ⟨queue s,
    .processed ((processNext limit).exchanges respond s) ((processNext limit).run respond s).1,
    queue ((processNext limit).run respond s).2⟩

/-- The oldest functions are processed, one after the other. -/
def processings : Nat → σ → List Moment
  | 0, _ => []
  | n + 1, s =>
    processing respond queue limit s :: processings n ((processNext limit).run respond s).2

/-- The state then. -/
def afterProcessings : Nat → σ → σ
  | 0, s => s
  | n + 1, s => afterProcessings n ((processNext limit).run respond s).2

namespace QueueCall

/-- What happens during a call. -/
def moments : QueueCall → σ → List Moment
  | .offer item force, s =>
    [⟨queue s, .offered item force ((Enrichment.offer item force).run respond s).1,
      queue ((Enrichment.offer item force).run respond s).2⟩]
  | .processNext, s => [processing respond queue limit s]
  | .drain, s => processings respond queue limit (queue s).pending.length (respond .queueStats s).2

/-- The state after a call. -/
def after : QueueCall → σ → σ
  | .offer item force, s => ((Enrichment.offer item force).run respond s).2
  | .processNext, s => ((Enrichment.processNext limit).run respond s).2
  | .drain, s => ((Enrichment.drain limit).run respond s).2

end QueueCall

/-- What happens during calls, in order. -/
def moments : List QueueCall → σ → List Moment
  | [], _ => []
  | c :: cs, s => c.moments respond queue limit s ++ moments cs (c.after respond limit s)

/-- The state after calls. -/
def after : List QueueCall → σ → σ
  | [], s => s
  | c :: cs, s => after cs (c.after respond limit s)

/-- What holds when something happens after the moments of the past. -/
structure Lawful (capacity : Int) (past : List Moment) (m : Moment) : Prop where
  before_eq : m.before = queueAfter capacity past
  recorded : Recorded capacity (past ++ [m]) m.after
  offer : ∀ item force answer, m.event = .offered item force answer →
    OfferLaw item force m.before answer m.after
  processing : ∀ log answer, m.event = .processed log answer →
    ProcessingLaw limit past m.before log answer m.after

variable {respond queue limit} {capacity : Int} {past : List Moment} {s : σ}

/-! ## One call -/

theorem run_offer (h : HoldsQueue respond queue) (item : Item) (force : Bool) (s : σ) :
    ((offer item force).run respond s).1 = .ok (((queue s).offer item force).2 == .pending) ∧
      queue ((offer item force).run respond s).2 = ((queue s).offer item force).1 := by
  obtain ⟨q, hq, hends⟩ := ends_offer.run (fun s q ↦ queue s = q) rfl
    fun r _ s q hs ↦ ⟨_, rfl, hs ▸ h r s⟩
  exact ⟨hends.1, hq.trans hends.2⟩

theorem run_processNext_nil (limit : Int) (h : HoldsQueue respond queue)
    (hs : (queue s).pending = []) :
    ((processNext limit).run respond s).1 = .ok none ∧
      queue ((processNext limit).run respond s).2 = queue s ∧
      handedOut ((processNext limit).exchanges respond s) = [] ∧
      services ((processNext limit).exchanges respond s) = [] := by
  have hends : (processNext limit).Ends Queue.Answers.logged _ (queue s, []) :=
    ends_processNext_nil hs
  obtain ⟨q, hq, hanswer, hqueue, hhanded, hservices⟩ :=
    hends.run_logged (fun s q ↦ queue s = q) rfl fun r s q hs ↦ ⟨_, rfl, hs ▸ h r s⟩
  exact ⟨hanswer, hq.trans hqueue, hhanded, hservices⟩

theorem run_processNext (limit : Int) (h : HoldsQueue respond queue) {item : Item}
    {rest : List Item} (hs : (queue s).pending = item :: rest) : ∃ success,
      ((processNext limit).run respond s).1 = .ok (some success) ∧
      queue ((processNext limit).run respond s).2 = (queue s).afterFirst item rest success ∧
      handedOut ((processNext limit).exchanges respond s) = [item] ∧
      Course limit item (services ((processNext limit).exchanges respond s)) success := by
  have hends : (processNext limit).Ends Queue.Answers.logged _ (queue s, []) := ends_processNext hs
  obtain ⟨q, hq, course, success, hcourse, hanswer, hqueue, hhanded, hservices⟩ :=
    hends.run_logged (fun s q ↦ queue s = q) rfl fun r s q hs ↦ ⟨_, rfl, hs ▸ h r s⟩
  obtain rfl : services ((processNext limit).exchanges respond s) = course := hservices
  exact ⟨success, hanswer, hq.trans hqueue, hhanded, hcourse⟩

/-- An offer is lawful. -/
theorem lawful_offer (limit : Int) (h : HoldsQueue respond queue)
    (hs : Recorded capacity past (queue s)) (item : Item) (force : Bool) :
    Lawful limit capacity past
      ⟨queue s, .offered item force ((offer item force).run respond s).1,
        queue ((offer item force).run respond s).2⟩ := by
  obtain ⟨hanswer, hqueue⟩ := run_offer h item force s
  rw [hanswer, hqueue]
  refine ⟨hs.queueAfter_eq.symm, hs.offer item force, ?_, ?_⟩
  · rintro _ _ _ ⟨⟩
    exact offerLaw_offer (queue s) item force
  · rintro _ _ ⟨⟩

/-- The processing of the oldest function is lawful. -/
theorem lawful_processing (limit : Int) (h : HoldsQueue respond queue)
    (hs : Recorded capacity past (queue s)) :
    Lawful limit capacity past (processing respond queue limit s) := by
  rw [processing]
  cases hpending : (queue s).pending with
  | nil =>
    obtain ⟨hanswer, hqueue, hhanded, hservices⟩ := run_processNext_nil limit h hpending
    rw [hanswer, hqueue]
    refine ⟨hs.queueAfter_eq.symm, hs.idle hhanded, ?_, ?_⟩
    · rintro _ _ _ ⟨⟩
    · rintro _ _ ⟨⟩
      exact .idle hpending hhanded hservices
  | cons item rest =>
    obtain ⟨success, hanswer, hqueue, hhanded, hcourse⟩ := run_processNext limit h hpending
    obtain ⟨hprocessed, hfailed⟩ := hs.kept.mem_afterFirst hpending success
    have hlatest : latestOffer? item.key past = some item :=
      hs.latest item (hpending ▸ List.mem_cons_self)
    rw [hanswer, hqueue]
    refine ⟨hs.queueAfter_eq.symm, hs.processed hpending success hhanded, ?_, ?_⟩
    · rintro _ _ _ ⟨⟩
    · rintro _ _ ⟨⟩
      exact .settled hpending hhanded hlatest hcourse (Queue.pending_settle _ _ _) hprocessed
        hfailed

/-! ## Draining -/

/-- One turn after another. -/
theorem run_processUpTo (limit : Int) (h : HoldsQueue respond queue) (n : Nat) {s : σ}
    (hn : (queue s).pending.length = n) :
    (processUpTo limit n).run respond s
        = (.ok ((processings respond queue limit n s).countP Moment.isSuccess),
          afterProcessings respond limit n s) ∧
      (queue (afterProcessings respond limit n s)).pending = [] := by
  -- The number of turns left is the number of functions that wait.
  induction n generalizing s with
  | zero => exact ⟨rfl, List.eq_nil_of_length_eq_zero hn⟩
  | succ n ih =>
    cases hpending : (queue s).pending with
    | nil => simp [hpending] at hn
    | cons item rest =>
      obtain ⟨success, hanswer, hqueue, -, -⟩ := run_processNext limit h hpending
      have hrest : (queue ((processNext limit).run respond s).2).pending.length = n := by
        rw [hqueue, Queue.afterFirst, Queue.pending_settle]
        rw [hpending, List.length_cons] at hn
        exact Nat.succ.inj hn
      obtain ⟨hrun, hempty⟩ := ih hrest
      have hturn : (processNext limit).run respond s
          = (.ok (some success), ((processNext limit).run respond s).2) := Prod.ext hanswer rfl
      refine ⟨?_, hempty⟩
      rw [processUpTo, run_bind, hturn]
      dsimp only
      rw [run_bind, hrun]
      have hsuccess : (processing respond queue limit s).isSuccess = success := by
        rw [processing, hanswer]
        cases success <;> rfl
      rw [processings, List.countP_cons, hsuccess]
      cases success <;> rfl

/-- Draining is processing the functions that wait. -/
theorem run_drain (limit : Int) (h : HoldsQueue respond queue) (s : σ) :
    (drain limit).run respond s
        = (.ok ((QueueCall.drain.moments respond queue limit s).countP Moment.isSuccess),
          afterProcessings respond limit (queue s).pending.length (respond .queueStats s).2) ∧
      (queue ((drain limit).run respond s).2).pending = [] := by
  obtain ⟨⟨running, hanswer⟩, hqueue⟩ := h .queueStats s
  have hstats : respond .queueStats s
      = (.ok ((queue s).stats running), (respond .queueStats s).2) := Prod.ext hanswer rfl
  obtain ⟨hrun, hempty⟩ := run_processUpTo limit h (queue s).pending.length
    (congrArg (List.length ·.pending) hqueue)
  have hdrain : (drain limit).run respond s
      = (processUpTo limit (queue s).pending.length).run respond (respond .queueStats s).2 := by
    rw [drain, run_bind, run_request, hstats]
    rfl
  rw [hdrain, hrun]
  exact ⟨rfl, hempty⟩

/-! ## A rehearsal -/

theorem holdsQueue_serve : HoldsQueue Rehearsal.serve Rehearsal.queue := by
  intro request r
  cases request
  case takeItem =>
    dsimp only [Rehearsal.serve]
    rw [Queue.Answers]
    cases htake : r.queue.take <;> exact ⟨rfl, rfl⟩
  case mergeNode | deleteRelationship =>
    exact (congrArg Rehearsal.queue (Rehearsal.withStore_eq _ r)).trans rfl
  case flushGraph =>
    dsimp only [Rehearsal.serve]
    cases r.store.dirty with
    | true =>
      exact (congrArg Rehearsal.queue r.saveStore_eq).trans rfl
    | false => rfl
  case queueStats => exact ⟨⟨_, rfl⟩, rfl⟩
  case offer | settle | note => exact ⟨rfl, rfl⟩
  all_goals exact rfl

/-- A rehearsal answers for its queue, also when some operations are made to fail. -/
theorem holdsQueue_respond : HoldsQueue Rehearsal.respond Rehearsal.queue := by
  intro request r
  rw [Rehearsal.respond]
  cases hfind : r.refusals.find? fun f ↦ f.concerns request with
  | some f =>
    -- No refusal concerns the queue or the log.
    have hconcerns : f.concerns request = true := by
      simpa using List.find?_some hfind
    cases request <;> first | rfl | simp [Refusal.concerns, Request.operation?] at hconcerns
  | none => exact holdsQueue_serve request r

/-! ## Runs -/

/-- Each moment is lawful after the past and the moments before it. -/
def AllLawful (limit capacity : Int) : List Moment → List Moment → Prop
  | _, [] => True
  | past, m :: ms => Lawful limit capacity past m ∧ AllLawful limit capacity (past ++ [m]) ms

theorem AllLawful.append {ms ms' : List Moment} (hms : AllLawful limit capacity past ms)
    (hms' : AllLawful limit capacity (past ++ ms) ms') :
    AllLawful limit capacity past (ms ++ ms') := by
  induction ms generalizing past with
  | nil =>
    rw [List.append_nil] at hms'
    exact hms'
  | cons m ms ih =>
    rw [List.append_cons] at hms'
    exact ⟨hms.1, ih hms.2 hms'⟩

theorem lawful_processings (limit : Int) (h : HoldsQueue respond queue) (n : Nat)
    {past : List Moment} {s : σ} (hs : Recorded capacity past (queue s)) :
    AllLawful limit capacity past (processings respond queue limit n s) ∧
      Recorded capacity (past ++ processings respond queue limit n s)
        (queue (afterProcessings respond limit n s)) := by
  induction n generalizing past s with
  | zero =>
    rw [processings, List.append_nil]
    exact ⟨trivial, hs⟩
  | succ n ih =>
    have hlawful := lawful_processing limit h hs
    obtain ⟨hrest, hrecorded⟩ := ih hlawful.recorded
    rw [processings, List.append_cons]
    exact ⟨⟨hlawful, hrest⟩, hrecorded⟩

/-- What happens during one call is lawful. -/
theorem QueueCall.lawful_moments (limit : Int) (h : HoldsQueue respond queue)
    (hs : Recorded capacity past (queue s)) (c : QueueCall) :
    AllLawful limit capacity past (c.moments respond queue limit s) ∧
      Recorded capacity (past ++ c.moments respond queue limit s)
        (queue (c.after respond limit s)) := by
  cases c with
  | offer item force =>
    have hlawful := lawful_offer limit h hs item force
    exact ⟨⟨hlawful, trivial⟩, hlawful.recorded⟩
  | processNext =>
    have hlawful := lawful_processing limit h hs
    exact ⟨⟨hlawful, trivial⟩, hlawful.recorded⟩
  | drain =>
    obtain ⟨-, hqueue⟩ := h .queueStats s
    obtain ⟨hdrain, -⟩ := run_drain limit h s
    have hs' : Recorded capacity past (queue (respond .queueStats s).2) := hqueue.symm ▸ hs
    rw [QueueCall.after, hdrain]
    exact lawful_processings limit h _ hs'

/-- What happens during a run is lawful, and its history is recorded in the queue at the end. -/
theorem lawful_moments (limit : Int) (h : HoldsQueue respond queue) (calls : List QueueCall)
    {past : List Moment} {s : σ} (hs : Recorded capacity past (queue s)) :
    AllLawful limit capacity past (moments respond queue limit calls s) ∧
      Recorded capacity (past ++ moments respond queue limit calls s)
        (queue (after respond limit calls s)) := by
  induction calls generalizing past s with
  | nil =>
    rw [moments, List.append_nil]
    exact ⟨trivial, hs⟩
  | cons c cs ih =>
    obtain ⟨hfirst, hrecorded⟩ := c.lawful_moments limit h hs
    obtain ⟨hrest, hfinal⟩ := ih hrecorded
    rw [moments, ← List.append_assoc]
    exact ⟨hfirst.append hrest, hfinal⟩

/-- **Runs of the queue are lawful.** Whatever the services answer, everything that happens to an
empty queue from then on is lawful, and draining it leaves nothing that waits and answers with the
number of functions that have been enriched meanwhile. -/
theorem lawful_run (h : HoldsQueue respond queue) (hcapacity : 1 ≤ capacity) (limit : Int)
    (hs : queue s = .empty capacity) (calls : List QueueCall) :
    AllLawful limit capacity [] (moments respond queue limit calls s) ∧
      queue (after respond limit calls s)
        = queueAfter capacity (moments respond queue limit calls s) ∧
      ((drain limit).run respond (after respond limit calls s)).1
        = .ok ((QueueCall.drain.moments respond queue limit
            (after respond limit calls s)).countP Moment.isSuccess) ∧
      (queue ((drain limit).run respond (after respond limit calls s)).2).pending = [] := by
  have hempty : Recorded capacity [] (queue s) := hs.symm ▸ recorded_nil hcapacity
  obtain ⟨hlawful, hrecorded⟩ := lawful_moments limit h calls hempty
  obtain ⟨hdrain, hpending⟩ := run_drain limit h (after respond limit calls s)
  exact ⟨hlawful, hrecorded.queueAfter_eq.symm, congrArg Prod.fst hdrain, hpending⟩

/-- A queue with room for two, and a language model that has no summary for the second function. -/
def roomForTwo : Rehearsal :=
  { Rehearsal.new {} .empty with
    queue := .empty 2
    replies := [.ok "Sorts.", .ok " "]
    vectors := [.ok []] }

/-- The third function finds no room. The first one is offered again while it waits, and once more
when it has been processed. -/
def crowdedCalls : List QueueCall :=
  let item (name code : String) : Item := ⟨name, name, "a.ts", code, 1, 1⟩
  [.offer (item "sort" "old") false, .offer (item "find" "") false, .offer (item "map" "") false,
    .offer (item "sort" "new") false, .processNext, .offer (item "sort" "old") false, .drain]

theorem lawful_run_crowdedCalls :
    (1 : Int) ≤ 2 ∧ roomForTwo.queue = .empty 2 ∧
      AllLawful 100 2 [] (moments Rehearsal.respond Rehearsal.queue 100 crowdedCalls roomForTwo) ∧
      (let q := (after Rehearsal.respond 100 crowdedCalls roomForTwo).queue
      (q.pending, q.processed, q.failed) = ([], [("sort", "a.ts")], [("find", "a.ts")])) := by
  have hlawful := lawful_run holdsQueue_respond (by decide) 100 (s := roomForTwo) rfl crowdedCalls
  refine ⟨by decide, rfl, hlawful.1, ?_⟩
  decide +kernel

end CodeAtlas.Enrichment
