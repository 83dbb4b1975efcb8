import CodeAtlas.Enrichment.Queue
import Mathlib.Data.List.Nodup

/-!
# Waiting, processed and failed

The queue knows three sets of functions: those that wait, those whose record has been stored and
those whose last attempt failed. As long as a function that is taken out is settled before anything
else happens, no function is in two of them, none waits twice, and no more wait than the capacity
allows (`Queue.Kept`).

An offer does one of four things (`Queue.offer_cases`), and two of them nothing.
-/

namespace CodeAtlas

open Syntax (FunctionKey)

namespace Queue

/-- The functions that wait, the oldest first. -/
def keys (q : Queue) : List FunctionKey := q.pending.map Item.key

/-- Each function waits at most once, there is room for all, and it is in none of the other sets. -/
structure Kept (q : Queue) : Prop where
  nodup : q.keys.Nodup
  length_le : (q.pending.length : Int) ≤ q.capacity
  pending_processed : ∀ k ∈ q.keys, k ∉ q.processed
  pending_failed : ∀ k ∈ q.keys, k ∉ q.failed
  processed_failed : ∀ k ∈ q.processed, k ∉ q.failed

variable {q : Queue} {item : Item} {force : Bool} {k k' : FunctionKey}

theorem isPending_iff : q.isPending k = true ↔ k ∈ q.keys := by
  simp [isPending, keys]

theorem mem_record {ks : List FunctionKey} : k' ∈ record k ks ↔ k' = k ∨ k' ∈ ks := by
  rw [record]
  split
  · rename_i hold
    have hmem : k ∈ ks := by simpa using hold
    constructor
    · exact Or.inr
    · rintro (rfl | h)
      · exact hmem
      · exact h
  · rw [List.mem_append, List.mem_singleton, or_comm]

theorem kept_empty {capacity : Int} (h : 1 ≤ capacity) : (empty capacity).Kept where
  nodup := List.nodup_nil
  length_le := by
    have hlength : ((empty capacity).pending.length : Int) = 0 := rfl
    have hcapacity : (empty capacity).capacity = capacity := rfl
    omega
  pending_processed _ hk := absurd hk List.not_mem_nil
  pending_failed _ hk := absurd hk List.not_mem_nil
  processed_failed _ hk := absurd hk List.not_mem_nil

/-! ## Offers -/

/-- The queue with a new item at its end. -/
def enter (item : Item) (q : Queue) : Queue :=
  { q with
    pending := q.pending ++ [item]
    processed := q.processed.filter fun k ↦ !(k == item.key)
    failed := q.failed.filter fun k ↦ !(k == item.key) }

/-- An offer refreshes an item that waits, is turned down, or enters. -/
theorem offer_cases (q : Queue) (item : Item) (force : Bool) :
    (item.key ∈ q.keys ∧
      q.offer item force = ({ q with pending := refresh item q.pending }, .pending)) ∨
    (item.key ∉ q.keys ∧ (item.key ∈ q.processed ∧ force = false) ∧
      q.offer item force = (q, .alreadyProcessed)) ∨
    (item.key ∉ q.keys ∧ ¬ (item.key ∈ q.processed ∧ force = false) ∧
      q.capacity ≤ q.pending.length ∧ q.offer item force = (q, .full)) ∨
    (item.key ∉ q.keys ∧ ¬ (item.key ∈ q.processed ∧ force = false) ∧
      (q.pending.length : Int) < q.capacity ∧ q.offer item force = (q.enter item, .pending)) := by
  rw [offer, ← isPending_iff]
  by_cases hpending : q.isPending item.key = true
  · exact Or.inl ⟨hpending, by rw [if_pos hpending]⟩
  · rw [if_neg hpending]
    have hdone : (q.processed.contains item.key && !force) = true
        ↔ item.key ∈ q.processed ∧ force = false := by
      simp
    by_cases hprocessed : (q.processed.contains item.key && !force) = true
    · exact Or.inr (Or.inl ⟨hpending, hdone.mp hprocessed, by rw [if_pos hprocessed]⟩)
    · rw [if_neg hprocessed]
      by_cases hfull : q.capacity ≤ q.pending.length
      · exact Or.inr (Or.inr (Or.inl
          ⟨hpending, mt hdone.mpr hprocessed, hfull, by rw [if_pos hfull]⟩))
      · refine Or.inr (Or.inr (Or.inr ⟨hpending, mt hdone.mpr hprocessed, Int.not_le.mp hfull, ?_⟩))
        rw [if_neg hfull]
        rfl

theorem keys_refresh (item : Item) (q : Queue) :
    keys { q with pending := refresh item q.pending } = q.keys := by
  rw [keys, keys, refresh, List.map_map]
  refine List.map_congr_left fun i _ ↦ ?_
  by_cases hi : i.key == item.key
  · simp only [Function.comp_apply, if_pos hi]
    exact (beq_iff_eq.mp hi).symm
  · simp only [Function.comp_apply, if_neg hi]

theorem keys_enter (item : Item) (q : Queue) : (q.enter item).keys = q.keys ++ [item.key] :=
  List.map_append

theorem mem_processed_enter : k ∈ (q.enter item).processed ↔ k ∈ q.processed ∧ k ≠ item.key := by
  simp [enter]

theorem mem_failed_enter : k ∈ (q.enter item).failed ↔ k ∈ q.failed ∧ k ≠ item.key := by
  simp [enter]

/-- An offer is accepted if its function waits then. -/
theorem offer_eq_pending_iff (q : Queue) (item : Item) (force : Bool) :
    (q.offer item force).2 = .pending ↔ item.key ∈ (q.offer item force).1.keys := by
  rcases q.offer_cases item force with ⟨hmem, hoffer⟩ | ⟨hnew, -, hoffer⟩ |
    ⟨hnew, -, -, hoffer⟩ | ⟨-, -, -, hoffer⟩ <;> rw [hoffer]
  · exact iff_of_true rfl (keys_refresh item q ▸ hmem)
  · exact iff_of_false Verdict.noConfusion hnew
  · exact iff_of_false Verdict.noConfusion hnew
  · refine iff_of_true rfl ?_
    rw [keys_enter]
    exact List.mem_concat_self

/-- An offer is turned down if its function does not wait, and is done or finds no room. -/
theorem offer_ne_pending_iff (q : Queue) (item : Item) (force : Bool) :
    (q.offer item force).2 ≠ .pending ↔ item.key ∉ q.keys ∧
      (item.key ∈ q.processed ∧ force = false ∨ q.capacity ≤ q.pending.length) := by
  rcases q.offer_cases item force with ⟨hmem, hoffer⟩ | ⟨hnew, hdone, hoffer⟩ |
    ⟨hnew, -, hfull, hoffer⟩ | ⟨-, hdone, hroom, hoffer⟩ <;> rw [hoffer]
  · exact iff_of_false (fun h ↦ h rfl) fun h ↦ h.1 hmem
  · exact iff_of_true (fun h ↦ Verdict.noConfusion h) ⟨hnew, Or.inl hdone⟩
  · exact iff_of_true (fun h ↦ Verdict.noConfusion h) ⟨hnew, Or.inr hfull⟩
  · exact iff_of_false (fun h ↦ h rfl) fun h ↦ h.2.elim hdone (Int.not_le.mpr hroom)

/-- An offer that is turned down leaves the queue as it is. -/
theorem offer_eq_self (h : (q.offer item force).2 ≠ .pending) : (q.offer item force).1 = q := by
  rcases q.offer_cases item force with ⟨-, hoffer⟩ | ⟨-, -, hoffer⟩ | ⟨-, -, -, hoffer⟩ |
    ⟨-, -, -, hoffer⟩ <;> rw [hoffer] at h ⊢
  · exact absurd rfl h
  · exact absurd rfl h

/-- What enters does not wait yet. -/
theorem nodup_keys_offer (h : q.keys.Nodup) (item : Item) (force : Bool) :
    (q.offer item force).1.keys.Nodup := by
  rcases q.offer_cases item force with ⟨-, hoffer⟩ | ⟨-, -, hoffer⟩ | ⟨-, -, -, hoffer⟩ |
    ⟨hnew, -, -, hoffer⟩ <;> rw [hoffer]
  · exact keys_refresh item q ▸ h
  · exact h
  · exact h
  · rw [keys_enter]
    refine List.nodup_append.mpr ⟨h, List.nodup_singleton _, ?_⟩
    rintro k hk _ hk' rfl
    exact hnew (List.mem_singleton.mp hk' ▸ hk)

theorem Kept.offer (h : q.Kept) (item : Item) (force : Bool) : (q.offer item force).1.Kept := by
  have hnodup := nodup_keys_offer h.nodup item force
  rcases q.offer_cases item force with ⟨-, hoffer⟩ | ⟨-, -, hoffer⟩ | ⟨-, -, -, hoffer⟩ |
    ⟨hnew, -, hroom, hoffer⟩
  · rw [hoffer] at hnodup ⊢
    have hkeys := keys_refresh item q
    refine ⟨hnodup, ?_, hkeys ▸ h.pending_processed, hkeys ▸ h.pending_failed,
      h.processed_failed⟩
    have hlength : (refresh item q.pending).length = q.pending.length := List.length_map _
    simpa only [hlength] using h.length_le
  · rw [hoffer]
    exact h
  · rw [hoffer]
    exact h
  · rw [hoffer] at hnodup ⊢
    constructor
    case nodup => exact hnodup
    case length_le =>
      have hlength : ((q.enter item).pending.length : Int) = q.pending.length + 1 := by
        simp [enter]
      have hcapacity : (q.enter item).capacity = q.capacity := rfl
      dsimp only
      omega
    case pending_processed =>
      intro k hk hprocessed
      obtain ⟨hold, hne⟩ := mem_processed_enter.mp hprocessed
      rw [keys_enter, List.mem_append, List.mem_singleton] at hk
      exact hk.elim (fun hk ↦ h.pending_processed k hk hold) hne
    case pending_failed =>
      intro k hk hfailed
      obtain ⟨hold, hne⟩ := mem_failed_enter.mp hfailed
      rw [keys_enter, List.mem_append, List.mem_singleton] at hk
      exact hk.elim (fun hk ↦ h.pending_failed k hk hold) hne
    case processed_failed =>
      intro k hk hfailed
      exact h.processed_failed k (mem_processed_enter.mp hk).1 (mem_failed_enter.mp hfailed).1

/-! ## Processing -/

/-- The queue after the oldest item has been taken out and settled. -/
def afterFirst (q : Queue) (item : Item) (rest : List Item) (success : Bool) : Queue :=
  settle { q with pending := rest } item.key success

theorem mem_processed_settle {success : Bool} :
    k' ∈ (q.settle k success).processed ↔ k' ∈ q.processed ∨ success = true ∧ k' = k := by
  cases success with
  | true => simp [settle, mem_record, or_comm]
  | false => simp [settle]

theorem mem_failed_settle {success : Bool} :
    k' ∈ (q.settle k success).failed ↔ k' ∈ q.failed ∨ success = false ∧ k' = k := by
  cases success with
  | true => simp [settle]
  | false => simp [settle, mem_record, or_comm]

theorem pending_settle (q : Queue) (k : FunctionKey) (success : Bool) :
    (q.settle k success).pending = q.pending := by
  cases success <;> rfl

theorem keys_settle (q : Queue) (k : FunctionKey) (success : Bool) :
    (q.settle k success).keys = q.keys :=
  congrArg (List.map Item.key) (pending_settle q k success)

theorem capacity_settle (q : Queue) (k : FunctionKey) (success : Bool) :
    (q.settle k success).capacity = q.capacity := by
  cases success <;> rfl

theorem keys_afterFirst (q : Queue) (item : Item) (rest : List Item) (success : Bool) :
    (q.afterFirst item rest success).keys = rest.map Item.key := keys_settle _ _ _

/-- Settling puts the function that was taken out into one set, and it was in neither. -/
theorem Kept.afterFirst (h : q.Kept) {rest : List Item} (hq : q.pending = item :: rest)
    (success : Bool) : (q.afterFirst item rest success).Kept := by
  have hkeys : q.keys = item.key :: rest.map Item.key := by
    rw [keys, hq, List.map_cons]
  have hfirst : item.key ∈ q.keys := hkeys ▸ List.mem_cons_self
  have hrest : ∀ k ∈ rest.map Item.key, k ∈ q.keys ∧ k ≠ item.key := by
    intro k hk
    have hnodup := hkeys ▸ h.nodup
    refine ⟨hkeys ▸ List.mem_cons_of_mem _ hk, ?_⟩
    rintro rfl
    exact (List.nodup_cons.mp hnodup).1 hk
  constructor
  case nodup =>
    rw [keys_afterFirst]
    exact (List.nodup_cons.mp (hkeys ▸ h.nodup)).2
  case length_le =>
    have hlength : q.pending.length = rest.length + 1 := by rw [hq, List.length_cons]
    have hle := h.length_le
    rw [Queue.afterFirst, pending_settle, capacity_settle]
    dsimp only
    omega
  case pending_processed =>
    intro k hk hprocessed
    rw [keys_afterFirst] at hk
    rcases mem_processed_settle.mp hprocessed with hold | ⟨-, hsame⟩
    · exact h.pending_processed k (hrest k hk).1 hold
    · exact (hrest k hk).2 hsame
  case pending_failed =>
    intro k hk hfailed
    rw [keys_afterFirst] at hk
    rcases mem_failed_settle.mp hfailed with hold | ⟨-, hsame⟩
    · exact h.pending_failed k (hrest k hk).1 hold
    · exact (hrest k hk).2 hsame
  case processed_failed =>
    intro k hprocessed hfailed
    rcases mem_processed_settle.mp hprocessed with hold | ⟨hsuccess, rfl⟩
    · rcases mem_failed_settle.mp hfailed with hold' | ⟨-, rfl⟩
      · exact h.processed_failed k hold hold'
      · exact h.pending_processed item.key hfirst hold
    · rcases mem_failed_settle.mp hfailed with hold' | ⟨hfailure, -⟩
      · exact h.pending_failed item.key hfirst hold'
      · exact Bool.noConfusion (hsuccess.symm.trans hfailure)

/-- The function that is settled is in the set that its outcome says, and not in the other. -/
theorem Kept.mem_afterFirst (h : q.Kept) {rest : List Item} (hq : q.pending = item :: rest)
    (success : Bool) :
    (item.key ∈ (q.afterFirst item rest success).processed ↔ success = true) ∧
      (item.key ∈ (q.afterFirst item rest success).failed ↔ success = false) := by
  have hfirst : item.key ∈ q.keys := by
    rw [keys, hq]
    exact List.mem_cons_self
  constructor
  · have hnot : item.key ∉ q.processed := h.pending_processed _ hfirst
    rw [Queue.afterFirst, mem_processed_settle]
    exact ⟨fun hmem ↦ (hmem.resolve_left hnot).1, fun hsuccess ↦ Or.inr ⟨hsuccess, rfl⟩⟩
  · have hnot : item.key ∉ q.failed := h.pending_failed _ hfirst
    rw [Queue.afterFirst, mem_failed_settle]
    exact ⟨fun hmem ↦ (hmem.resolve_left hnot).1, fun hfailure ↦ Or.inr ⟨hfailure, rfl⟩⟩

end Queue

end CodeAtlas
