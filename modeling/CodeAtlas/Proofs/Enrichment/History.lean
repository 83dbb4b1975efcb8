import CodeAtlas.Proofs.Enrichment.Courses

/-!
# The history of a queue

Two things happen to a queue: a function is offered, or the oldest one is processed. Put down one
after the other, with the queue before and after, they are its history.

A history is *recorded* in the queue it leads to (`Recorded`): the functions that entered are those
that were handed out, followed by those that wait, in this order; and what waits for a function is
what was offered for it last. So the functions are processed in the order in which they entered,
each as often as it entered. An offer and the processing of the oldest function keep the record
(`Recorded.offer`, `Recorded.processed`).
-/

namespace CodeAtlas.Enrichment

open Syntax (FunctionKey)

/-- An offer and its answer, or the processing of the oldest function, with what is said in the
course of it and the answer. -/
inductive Event
  | offered (item : Item) (force : Bool) (answer : Except Fault Bool)
  | processed (log : List Exchange) (answer : Except Fault (Option Bool))

/-- Something that happens, with the queue before and after. -/
structure Moment where
  before : Queue
  event : Event
  after : Queue

namespace Moment

def offered : Moment → List Item
  | ⟨_, .offered item _ _, _⟩ => [item]
  | ⟨_, .processed _ _, _⟩ => []

def handedOut : Moment → List Item
  | ⟨_, .offered _ _ _, _⟩ => []
  | ⟨_, .processed log _, _⟩ => CodeAtlas.handedOut log

/-- The function that starts to wait. -/
def entered (m : Moment) : List FunctionKey :=
  (m.offered.map Item.key).filter fun k ↦ k ∉ m.before.keys ∧ k ∈ m.after.keys

/-- Is the function enriched that is processed? -/
def isSuccess : Moment → Bool
  | ⟨_, .processed _ (.ok (some true)), _⟩ => true
  | _ => false

end Moment

variable {past : List Moment} {m : Moment} {k : FunctionKey}

/-- The functions that entered, in order. -/
def entries (past : List Moment) : List FunctionKey := past.flatMap Moment.entered

/-- The functions that were handed out, in order. -/
def processedKeys (past : List Moment) : List FunctionKey :=
  (past.flatMap Moment.handedOut).map Item.key

/-- What was offered last for a function. -/
def latestOffer? (k : FunctionKey) (past : List Moment) : Option Item :=
  ((past.flatMap Moment.offered).filter fun i ↦ i.key == k).getLast?

/-- The queue that a history leads to. -/
def queueAfter (capacity : Int) (past : List Moment) : Queue :=
  (past.getLast?.map Moment.after).getD (.empty capacity)

theorem entries_concat : entries (past ++ [m]) = entries past ++ m.entered := by
  simp [entries]

theorem processedKeys_concat :
    processedKeys (past ++ [m]) = processedKeys past ++ m.handedOut.map Item.key := by
  simp [processedKeys]

theorem queueAfter_concat (capacity : Int) : queueAfter capacity (past ++ [m]) = m.after := by
  simp [queueAfter]

/-- An offer is the latest one for its own function and for no other. -/
theorem latestOffer?_concat_offered {item : Item} (hm : m.offered = [item]) :
    latestOffer? k (past ++ [m]) = if item.key = k then some item else latestOffer? k past := by
  rw [latestOffer?, List.flatMap_append, List.flatMap_singleton, hm, List.filter_append]
  by_cases hk : item.key = k
  · have hlast : [item].filter (fun i ↦ i.key == k) = [item] :=
      List.filter_eq_self.mpr (by simpa using hk)
    rw [if_pos hk, hlast, List.getLast?_concat]
  · have hlast : [item].filter (fun i ↦ i.key == k) = [] :=
      List.filter_eq_nil_iff.mpr (by simpa using hk)
    rw [if_neg hk, hlast, List.append_nil]
    rfl

theorem latestOffer?_concat_of_offered_eq_nil (hm : m.offered = []) :
    latestOffer? k (past ++ [m]) = latestOffer? k past := by
  rw [latestOffer?, List.flatMap_append, List.flatMap_singleton, hm, List.append_nil]
  rfl

/-- The queue agrees with its history. -/
structure Recorded (capacity : Int) (past : List Moment) (q : Queue) : Prop where
  queueAfter_eq : queueAfter capacity past = q
  capacity_eq : q.capacity = capacity
  kept : q.Kept
  entries_eq : entries past = processedKeys past ++ q.keys
  latest : ∀ item ∈ q.pending, latestOffer? item.key past = some item

theorem recorded_nil {capacity : Int} (h : 1 ≤ capacity) :
    Recorded capacity [] (.empty capacity) where
  queueAfter_eq := rfl
  capacity_eq := rfl
  kept := Queue.kept_empty h
  entries_eq := rfl
  latest _ h := absurd h List.not_mem_nil

variable {capacity : Int} {q : Queue} {item : Item} {force : Bool} {answer : Except Fault Bool}

/-! ## Offers -/

/-- What an offer does and answers. -/
structure OfferLaw (item : Item) (force : Bool) (before : Queue) (answer : Except Fault Bool)
    (after : Queue) : Prop where
  answered : ∃ waits, answer = .ok waits
  eq_true_iff : answer = .ok true ↔ item.key ∈ after.keys
  eq_false_iff : answer = .ok false ↔ item.key ∉ before.keys ∧
    (item.key ∈ before.processed ∧ force = false ∨ before.capacity ≤ before.pending.length)
  refused : answer = .ok false → after = before
  refreshed : item.key ∈ before.keys → after.keys = before.keys ∧
    after.processed = before.processed ∧ after.failed = before.failed

/-- The moment of an offer to a queue. -/
def offering (q : Queue) (item : Item) (force : Bool) : Moment :=
  ⟨q, .offered item force (.ok ((q.offer item force).2 == .pending)), (q.offer item force).1⟩

theorem offerLaw_offer (q : Queue) (item : Item) (force : Bool) :
    OfferLaw item force q (.ok ((q.offer item force).2 == .pending)) (q.offer item force).1 where
  answered := ⟨_, rfl⟩
  eq_true_iff := by
    rw [Except.ok.injEq, beq_iff_eq]
    exact q.offer_eq_pending_iff item force
  eq_false_iff := by
    rw [Except.ok.injEq, beq_eq_false_iff_ne]
    exact q.offer_ne_pending_iff item force
  refused h := by
    rw [Except.ok.injEq, beq_eq_false_iff_ne] at h
    exact Queue.offer_eq_self h
  refreshed hmem := by
    rcases q.offer_cases item force with ⟨-, hoffer⟩ | ⟨hnew, -⟩ | ⟨hnew, -⟩ | ⟨hnew, -⟩
    · rw [hoffer]
      exact ⟨Queue.keys_refresh item q, rfl, rfl⟩
    · exact absurd hmem hnew
    · exact absurd hmem hnew
    · exact absurd hmem hnew

/-- A function that does not start to wait leaves the entries as they are. -/
theorem entered_offering_eq_nil (h : item.key ∈ q.keys ∨ item.key ∉ (q.offer item force).1.keys) :
    (offering q item force).entered = [] := by
  refine List.filter_eq_nil_iff.mpr fun k hk ↦ ?_
  obtain rfl : k = item.key := List.mem_singleton.mp hk
  rw [decide_eq_true_eq]
  rintro ⟨hnew, hwaits⟩
  exact h.elim hnew fun h ↦ h hwaits

theorem entered_offering_eq_singleton (hnew : item.key ∉ q.keys)
    (hwaits : item.key ∈ (q.offer item force).1.keys) :
    (offering q item force).entered = [item.key] := by
  refine List.filter_eq_self.mpr fun k hk ↦ ?_
  obtain rfl : k = item.key := List.mem_singleton.mp hk
  exact decide_eq_true ⟨hnew, hwaits⟩

theorem processedKeys_concat_offering :
    processedKeys (past ++ [offering q item force]) = processedKeys past := by
  rw [processedKeys_concat]
  exact List.append_nil _

theorem latestOffer?_concat_offering : latestOffer? k (past ++ [offering q item force])
    = if item.key = k then some item else latestOffer? k past := latestOffer?_concat_offered rfl

/-- What waits is still the latest offer for its function if another function is offered. -/
theorem Recorded.latest_concat_offering (h : Recorded capacity past q) (hnew : item.key ∉ q.keys)
    {i : Item} (hi : i ∈ q.pending) :
    latestOffer? i.key (past ++ [offering q item force]) = some i := by
  have hne : item.key ≠ i.key := by
    intro heq
    exact hnew (heq ▸ List.mem_map_of_mem hi)
  rw [latestOffer?_concat_offering, if_neg hne]
  exact h.latest i hi

theorem Recorded.offer (h : Recorded capacity past q) (item : Item) (force : Bool) :
    Recorded capacity (past ++ [offering q item force]) (q.offer item force).1 := by
  -- An offer that is turned down leaves the queue alone.
  have hrefused : item.key ∉ q.keys → (q.offer item force).1 = q →
      Recorded capacity (past ++ [offering q item force]) (q.offer item force).1 := by
    intro hnew hoffer
    refine ⟨queueAfter_concat _, ?_, h.kept.offer item force, ?_, ?_⟩
    · rw [hoffer]
      exact h.capacity_eq
    · rw [entries_concat, entered_offering_eq_nil (Or.inr (hoffer.symm ▸ hnew)),
        processedKeys_concat_offering, hoffer, List.append_nil]
      exact h.entries_eq
    · rw [hoffer]
      exact fun i hi ↦ h.latest_concat_offering hnew hi
  rcases q.offer_cases item force with ⟨hmem, hoffer⟩ | ⟨hnew, -, hoffer⟩ | ⟨hnew, -, -, hoffer⟩ |
    ⟨hnew, -, -, hoffer⟩
  -- A refresh: nobody enters, and the new item is the latest offer for its function.
  · have hkeys : (q.offer item force).1.keys = q.keys := by
      rw [hoffer]
      exact Queue.keys_refresh item q
    refine ⟨queueAfter_concat _, ?_, h.kept.offer item force, ?_, ?_⟩
    · rw [hoffer]
      exact h.capacity_eq
    · rw [entries_concat, entered_offering_eq_nil (Or.inl hmem), processedKeys_concat_offering,
        hkeys, List.append_nil]
      exact h.entries_eq
    · rw [hoffer]
      rintro _ hrefreshed
      obtain ⟨i, hi, rfl⟩ := List.mem_map.mp hrefreshed
      by_cases hsame : i.key == item.key
      · rw [if_pos hsame, latestOffer?_concat_offering, if_pos rfl]
      · have hne : item.key ≠ i.key := fun heq ↦ hsame (beq_iff_eq.mpr heq.symm)
        rw [if_neg hsame, latestOffer?_concat_offering, if_neg hne]
        exact h.latest i hi
  · exact hrefused hnew (congrArg Prod.fst hoffer)
  · exact hrefused hnew (congrArg Prod.fst hoffer)
  -- An entry: the function is the last one in both lists.
  · have hkeys : (q.offer item force).1.keys = q.keys ++ [item.key] := by
      rw [hoffer]
      exact Queue.keys_enter item q
    refine ⟨queueAfter_concat _, ?_, h.kept.offer item force, ?_, ?_⟩
    · rw [hoffer]
      exact h.capacity_eq
    · have hwaits : item.key ∈ (q.offer item force).1.keys := hkeys ▸ List.mem_concat_self
      rw [entries_concat, entered_offering_eq_singleton hnew hwaits, processedKeys_concat_offering,
        hkeys, h.entries_eq, List.append_assoc]
    · rw [hoffer]
      intro i hi
      rcases List.mem_append.mp hi with hi | hi
      · exact h.latest_concat_offering hnew hi
      · obtain rfl := List.mem_singleton.mp hi
        rw [latestOffer?_concat_offering, if_pos rfl]

/-! ## Processing -/

/-- What becomes of the oldest function, and what is answered. -/
inductive ProcessingLaw (limit : Int) (past : List Moment) (before : Queue) (log : List Exchange) :
    Except Fault (Option Bool) → Queue → Prop
  | idle (hpending : before.pending = []) (hhanded : handedOut log = [])
    (hservices : services log = []) :
    ProcessingLaw limit past before log (.ok none) before
  | settled {item : Item} {rest : List Item} {success : Bool} {after : Queue}
    (hpending : before.pending = item :: rest) (hhanded : handedOut log = [item])
    (hlatest : latestOffer? item.key past = some item)
    (hcourse : Course limit item (services log) success) (hafter : after.pending = rest)
    (hprocessed : item.key ∈ after.processed ↔ success = true)
    (hfailed : item.key ∈ after.failed ↔ success = false) :
    ProcessingLaw limit past before log (.ok (some success)) after

/-- Nothing is handed out by an idle queue. -/
theorem Recorded.idle (h : Recorded capacity past q) {log : List Exchange}
    {answer : Except Fault (Option Bool)} (hhanded : handedOut log = []) :
    Recorded capacity (past ++ [⟨q, .processed log answer, q⟩]) q where
  queueAfter_eq := queueAfter_concat _
  capacity_eq := h.capacity_eq
  kept := h.kept
  entries_eq := by
    have hentered : Moment.entered ⟨q, .processed log answer, q⟩ = [] := rfl
    have hnone : Moment.handedOut ⟨q, .processed log answer, q⟩ = [] := hhanded
    rw [entries_concat, processedKeys_concat, hentered, hnone, List.map_nil, List.append_nil,
      List.append_nil]
    exact h.entries_eq
  latest i hi := (latestOffer?_concat_of_offered_eq_nil rfl).trans (h.latest i hi)

/-- The oldest function goes from the ones that wait to the ones that were handed out. -/
theorem Recorded.processed (h : Recorded capacity past q) {rest : List Item} {log : List Exchange}
    {answer : Except Fault (Option Bool)} (hq : q.pending = item :: rest) (success : Bool)
    (hhanded : handedOut log = [item]) :
    Recorded capacity (past ++ [⟨q, .processed log answer, q.afterFirst item rest success⟩])
      (q.afterFirst item rest success) where
  queueAfter_eq := queueAfter_concat _
  capacity_eq := (Queue.capacity_settle _ _ _).trans h.capacity_eq
  kept := h.kept.afterFirst hq success
  entries_eq := by
    set m : Moment := ⟨q, .processed log answer, q.afterFirst item rest success⟩ with hm
    have hentered : m.entered = [] := rfl
    have hfirst : m.handedOut = [item] := hhanded
    have hkeys : q.keys = [item.key] ++ rest.map Item.key := by
      rw [Queue.keys, hq]
      rfl
    rw [entries_concat, processedKeys_concat, hentered, hfirst, Queue.keys_afterFirst, h.entries_eq,
      hkeys, List.append_nil, List.append_assoc]
    rfl
  latest i hi := by
    have hpending : (q.afterFirst item rest success).pending = rest := Queue.pending_settle _ _ _
    rw [hpending] at hi
    have hold : i ∈ q.pending := hq ▸ List.mem_cons_of_mem _ hi
    exact (latestOffer?_concat_of_offered_eq_nil rfl).trans (h.latest i hold)

end CodeAtlas.Enrichment
