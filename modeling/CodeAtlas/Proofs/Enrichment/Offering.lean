import CodeAtlas.Proofs.Enrichment.Waiting
import Mathlib.Data.Finset.Card
import Mathlib.Data.Finset.Dedup

/-!
# Many offers

An offer that is accepted puts its item in the place of the one that waited for the same function, or
at the end, and the others wait as before (`Queue.mem_pending_offer`). So after a list of offers, what
waits is what was offered last.

How many wait is another matter. If nothing waits at first and nothing that is offered is processed
already, offers are accepted until the queue is full, and from then on it is full: as many functions
wait as were offered, or as there is room for (`Queue.Filled`).
-/

namespace CodeAtlas

open Syntax (FunctionKey)

namespace Queue

variable {q : Queue} {item i : Item} {items : List Item} {force : Bool} {k : FunctionKey}

/-! ## One offer -/

theorem mem_pending_refresh {pending : List Item} :
    i ∈ refresh item pending ↔
      (i = item ∧ item.key ∈ pending.map Item.key) ∨ (i ∈ pending ∧ i.key ≠ item.key) := by
  rw [refresh, List.mem_map, List.mem_map]
  constructor
  · rintro ⟨j, hj, heq⟩
    by_cases hkey : j.key = item.key
    · rw [if_pos (beq_iff_eq.mpr hkey)] at heq
      exact Or.inl ⟨heq.symm, j, hj, hkey⟩
    · rw [if_neg (mt beq_iff_eq.mp hkey)] at heq
      exact Or.inr ⟨heq ▸ hj, heq ▸ hkey⟩
  · rintro (⟨rfl, j, hj, hkey⟩ | ⟨hi, hkey⟩)
    · exact ⟨j, hj, if_pos (beq_iff_eq.mpr hkey)⟩
    · exact ⟨i, hi, if_neg (mt beq_iff_eq.mp hkey)⟩

/-- After an offer its item waits, if it was accepted, and the items of the other functions. -/
theorem mem_pending_offer : i ∈ (q.offer item force).1.pending ↔
    (i = item ∧ (q.offer item force).2 = .pending) ∨ (i ∈ q.pending ∧ i.key ≠ item.key) := by
  have hne : item.key ∉ q.keys → (i ∈ q.pending ↔ i ∈ q.pending ∧ i.key ≠ item.key) := by
    refine fun hnew ↦ ⟨fun hi ↦ ⟨hi, fun hkey ↦ hnew ?_⟩, And.left⟩
    exact hkey ▸ List.mem_map_of_mem hi
  rcases q.offer_cases item force with ⟨hmem, hoffer⟩ | ⟨hnew, -, hoffer⟩ |
    ⟨hnew, -, -, hoffer⟩ | ⟨hnew, -, -, hoffer⟩ <;> rw [hoffer]
  · rw [mem_pending_refresh, and_iff_left rfl]
    exact or_congr_left (and_iff_left hmem)
  · rw [hne hnew]
    simp
  · rw [hne hnew]
    simp
  · rw [enter, List.mem_append, List.mem_singleton, or_comm, and_iff_left rfl]
    exact or_congr_right (hne hnew)

theorem mem_keys_offer (hk : k ∈ q.keys) (item : Item) (force : Bool) :
    k ∈ (q.offer item force).1.keys := by
  rcases q.offer_cases item force with ⟨-, hoffer⟩ | ⟨-, -, hoffer⟩ | ⟨-, -, -, hoffer⟩ |
    ⟨-, -, -, hoffer⟩ <;> rw [hoffer]
  · exact keys_refresh item q ▸ hk
  · exact hk
  · exact hk
  · rw [keys_enter]
    exact List.mem_append_left _ hk

theorem capacity_offer (q : Queue) (item : Item) (force : Bool) :
    (q.offer item force).1.capacity = q.capacity := by
  rcases q.offer_cases item force with ⟨-, hoffer⟩ | ⟨-, -, hoffer⟩ | ⟨-, -, -, hoffer⟩ |
    ⟨-, -, -, hoffer⟩ <;> rw [hoffer]
  rfl

/-- An offer adds one item at most, and only if there is room. -/
theorem length_offer (q : Queue) (item : Item) (force : Bool) :
    (q.offer item force).1.pending.length = q.pending.length ∨
      (q.offer item force).1.pending.length = q.pending.length + 1 ∧
        (q.pending.length : Int) < q.capacity := by
  rcases q.offer_cases item force with ⟨-, hoffer⟩ | ⟨-, -, hoffer⟩ | ⟨-, -, -, hoffer⟩ |
    ⟨-, -, hroom, hoffer⟩ <;> rw [hoffer]
  · exact Or.inl (List.length_map _)
  · exact Or.inl rfl
  · exact Or.inl rfl
  · exact Or.inr ⟨List.length_append, hroom⟩

/-- An offer of what is not processed changes nothing about what is. -/
theorem mem_processed_offer (hnew : item.key ∉ q.processed) :
    k ∈ (q.offer item force).1.processed ↔ k ∈ q.processed := by
  rcases q.offer_cases item force with ⟨-, hoffer⟩ | ⟨-, -, hoffer⟩ | ⟨-, -, -, hoffer⟩ |
    ⟨-, -, -, hoffer⟩ <;> rw [hoffer]
  rw [mem_processed_enter, and_iff_left_iff_imp]
  rintro hk rfl
  exact hnew hk

/-! ## Several offers -/

/-- The queue after items have been offered, one after the other. -/
def offerAll (force : Bool) (items : List Item) (q : Queue) : Queue :=
  items.foldl (fun q i ↦ (q.offer i force).1) q

theorem offerAll_append (force : Bool) (items items' : List Item) (q : Queue) :
    q.offerAll force (items ++ items') = (q.offerAll force items).offerAll force items' :=
  List.foldl_append

/-- The verdicts on the offers, each in the queue that those before it leave, are as `P` says. -/
def EachOffer (P : Item → Verdict → Prop) (force : Bool) : List Item → Queue → Prop
  | [], _ => True
  | i :: items, q => P i (q.offer i force).2 ∧ EachOffer P force items (q.offer i force).1

theorem EachOffer.append {P : Item → Verdict → Prop} {items' : List Item}
    (h : EachOffer P force items q) (h' : EachOffer P force items' (q.offerAll force items)) :
    EachOffer P force (items ++ items') q := by
  induction items generalizing q with
  | nil => exact h'
  | cons i items ih => exact ⟨h.1, ih h.2 h'⟩

theorem EachOffer.mono {P R : Item → Verdict → Prop} (h : EachOffer P force items q)
    (hPR : ∀ i v, P i v → R i v) : EachOffer R force items q := by
  induction items generalizing q with
  | nil => trivial
  | cons i items ih => exact ⟨hPR _ _ h.1, ih h.2⟩

/-- The item that is offered last for a function. -/
def lastOffered (items : List Item) (k : FunctionKey) : Option Item :=
  items.reverse.find? (·.key == k)

theorem lastOffered_snoc (items : List Item) (item : Item) (k : FunctionKey) :
    lastOffered (items ++ [item]) k = if item.key = k then some item else lastOffered items k := by
  rw [lastOffered, List.reverse_append, List.reverse_singleton, List.singleton_append,
    List.find?_cons]
  by_cases h : item.key = k
  · rw [if_pos h, beq_iff_eq.mpr h]
  · rw [if_neg h, beq_eq_false_iff_ne.mpr h, lastOffered]

theorem lastOffered_eq_none : lastOffered items k = none ↔ k ∉ items.map Item.key := by
  rw [lastOffered, List.find?_eq_none]
  simp

theorem key_of_lastOffered (h : lastOffered items k = some item) : item.key = k :=
  beq_iff_eq.mp (List.find?_some (p := fun i : Item ↦ i.key == k) h)

theorem mem_of_lastOffered (h : lastOffered items k = some item) : item ∈ items :=
  List.mem_reverse.mp (List.mem_of_find?_eq_some h)

theorem lastOffered_cons (item : Item) (items : List Item) (k : FunctionKey) :
    lastOffered (item :: items) k
      = (lastOffered items k).or (if item.key = k then some item else none) := by
  rw [lastOffered, List.reverse_cons, List.find?_append, ← lastOffered, List.find?_singleton]
  simp only [beq_iff_eq]

theorem nodup_keys_offerAll (h : q.keys.Nodup) (force : Bool) (items : List Item) :
    (q.offerAll force items).keys.Nodup := by
  induction items generalizing q with
  | nil => exact h
  | cons i items ih => exact ih (nodup_keys_offer h i force)

/-- **What waits after forced offers** that all found room is what was offered last, and what waited
before for functions that were not offered. -/
theorem mem_pending_offerAll (h : EachOffer (fun _ v ↦ v ≠ .full) true items q) :
    i ∈ (q.offerAll true items).pending ↔
      lastOffered items i.key = some i ∨ (lastOffered items i.key = none ∧ i ∈ q.pending) := by
  induction items generalizing q with
  | nil => simp [offerAll, lastOffered]
  | cons item items ih =>
    have haccepted : (q.offer item true).2 = .pending := by
      have hroom := h.1
      rcases q.offer_cases item true with ⟨-, hoffer⟩ | ⟨-, ⟨-, hforce⟩, -⟩ | ⟨-, -, -, hoffer⟩ |
        ⟨-, -, -, hoffer⟩
      · rw [hoffer]
      · exact Bool.noConfusion hforce
      · rw [hoffer] at hroom
        exact absurd rfl hroom
      · rw [hoffer]
    have hrest := ih h.2
    rw [mem_pending_offer, and_iff_left haccepted] at hrest
    refine hrest.trans ?_
    rw [lastOffered_cons]
    cases hlast : lastOffered items i.key with
    | some j => simp
    | none =>
      rw [Option.none_or]
      by_cases hkey : item.key = i.key
      · rw [if_pos hkey]
        simp [hkey, eq_comm]
      · have hne : i ≠ item := fun heq ↦ hkey (congrArg Item.key heq.symm)
        rw [if_neg hkey]
        simp [hne, Ne.symm hkey]

/-! ## Filling an empty queue -/

/-- What waits after offers to a queue in which nothing waited. -/
structure Filled (before : Queue) (items : List Item) (after : Queue) : Prop where
  capacity : after.capacity = before.capacity
  nodup : after.keys.Nodup
  length_le : (after.pending.length : Int) ≤ after.capacity
  latest : ∀ i ∈ after.pending, lastOffered items i.key = some i
  complete : (after.pending.length : Int) < after.capacity → ∀ i ∈ items, i.key ∈ after.keys
  mem_processed : ∀ k, k ∈ after.processed ↔ k ∈ before.processed

theorem filled_offerAll (hempty : q.pending = []) (hcapacity : 0 ≤ q.capacity)
    (hnew : ∀ i ∈ items, i.key ∉ q.processed) : Filled q items (q.offerAll force items) := by
  -- Each offer is looked at with those before it.
  induction items using List.reverseRecOn with
  | nil =>
    have hnone : ∀ i, i ∉ (q.offerAll force []).pending := by
      intro i hi
      rw [offerAll, List.foldl_nil, hempty] at hi
      exact List.not_mem_nil hi
    refine ⟨rfl, ?_, ?_, fun i hi ↦ absurd hi (hnone i), fun _ i hi ↦ absurd hi List.not_mem_nil,
      fun _ ↦ Iff.rfl⟩
    · rw [keys, List.eq_nil_iff_forall_not_mem.mpr hnone]
      exact List.nodup_nil
    · rw [List.eq_nil_iff_forall_not_mem.mpr hnone]
      exact hcapacity
  | append_singleton items item ih =>
    rw [List.forall_mem_append, List.forall_mem_singleton] at hnew
    obtain ⟨hcap, hnodup, hlength, hlatest, hcomplete, hprocessed⟩ := ih hnew.1
    have hafter : q.offerAll force (items ++ [item])
        = ((q.offerAll force items).offer item force).1 := offerAll_append _ _ _ _
    have hitem : item.key ∉ (q.offerAll force items).processed := mt (hprocessed _).mp hnew.2
    have hcap' := capacity_offer (q.offerAll force items) item force
    have hlength' := length_offer (q.offerAll force items) item force
    rw [hafter]
    constructor
    case capacity => exact hcap'.trans hcap
    case nodup => exact nodup_keys_offer hnodup item force
    case length_le => omega
    case latest =>
      intro i hi
      rw [lastOffered_snoc]
      rcases mem_pending_offer.mp hi with ⟨rfl, -⟩ | ⟨hi, hkey⟩
      · exact if_pos rfl
      · rw [if_neg (Ne.symm hkey)]
        exact hlatest i hi
    case complete =>
      intro hroom
      rw [List.forall_mem_append, List.forall_mem_singleton]
      refine ⟨fun i hi ↦ mem_keys_offer (hcomplete (by omega) i hi) item force, ?_⟩
      rw [← offer_eq_pending_iff]
      by_contra hrefused
      rcases ((offer_ne_pending_iff _ _ _).mp hrefused).2 with ⟨hdone, -⟩ | hfull
      · exact hitem hdone
      · omega
    case mem_processed => exact fun k ↦ (mem_processed_offer hitem).trans (hprocessed k)

/-- **As many functions wait as were offered, or as there is room for.** -/
theorem Filled.length_eq {before after : Queue} (h : Filled before items after) {m : ℕ}
    (hm : before.capacity = m) :
    after.pending.length = min m (items.map Item.key).toFinset.card := by
  have hcard : after.keys.toFinset.card = after.pending.length := by
    rw [List.toFinset_card_of_nodup h.nodup, keys, List.length_map]
  have hsub : after.keys.toFinset ⊆ (items.map Item.key).toFinset := by
    intro k hk
    obtain ⟨i, hi, rfl⟩ := List.mem_map.mp (List.mem_toFinset.mp hk)
    rw [List.mem_toFinset]
    exact List.mem_map_of_mem (mem_of_lastOffered (h.latest i hi))
  have hle := Finset.card_le_card hsub
  have hcapacity := h.capacity
  have hlength := h.length_le
  by_cases hroom : (after.pending.length : Int) < after.capacity
  · have hsup : (items.map Item.key).toFinset ⊆ after.keys.toFinset := by
      intro k hk
      obtain ⟨i, hi, rfl⟩ := List.mem_map.mp (List.mem_toFinset.mp hk)
      rw [List.mem_toFinset]
      exact h.complete hroom i hi
    have hge := Finset.card_le_card hsup
    omega
  · omega

end Queue

end CodeAtlas
