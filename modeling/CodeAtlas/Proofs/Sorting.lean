import CodeAtlas.Datum
import Mathlib.Data.List.Permutation
import Mathlib.Data.String.Basic

/-!
# Entries in the order of their keys

Sorting looks at keys only and loses nothing. If no key occurs twice, the keys ascend strictly, so
that the order of the entries before does not show any more. `Datum.ordered` sorts the entries of
every map, at every depth.
-/

namespace CodeAtlas

namespace Props

variable {α β : Type}

@[simp] theorem sorted_nil : sorted ([] : List (String × α)) = [] := rfl

@[simp] theorem sorted_cons (e : String × α) (l : List (String × α)) :
    sorted (e :: l) = insertSorted e (sorted l) := rfl

theorem insertSorted_map (f : String × α → String × β) (hf : ∀ e, (f e).1 = e.1) (e : String × α)
    (l : List (String × α)) :
    (insertSorted e l).map f = insertSorted (f e) (l.map f) := by
  induction l with
  | nil => rfl
  | cons x l ih =>
    simp only [insertSorted, List.map_cons, hf]
    by_cases h : x.1 < e.1
    · rw [if_pos h, if_pos h, List.map_cons, ih]
    · rw [if_neg h, if_neg h, List.map_cons, List.map_cons]

/-- Sorting looks at keys only. -/
theorem sorted_map (f : String × α → String × β) (hf : ∀ e, (f e).1 = e.1)
    (l : List (String × α)) : sorted (l.map f) = (sorted l).map f := by
  induction l with
  | nil => rfl
  | cons x l ih => rw [List.map_cons, sorted_cons, ih, ← insertSorted_map f hf, sorted_cons]

theorem insertSorted_perm (e : String × α) (es : List (String × α)) :
    (insertSorted e es).Perm (e :: es) := by
  induction es with
  | nil => exact List.Perm.refl _
  | cons f es ih =>
    rw [insertSorted]
    split
    · exact (ih.cons f).trans (List.Perm.swap e f es)
    · exact List.Perm.refl _

theorem sorted_perm (es : List (String × α)) : (sorted es).Perm es := by
  induction es with
  | nil => exact List.Perm.refl _
  | cons e es ih =>
    rw [sorted_cons]
    exact (insertSorted_perm e _).trans (ih.cons e)

@[simp] theorem mem_sorted {x : String × α} {es : List (String × α)} : x ∈ sorted es ↔ x ∈ es :=
  (sorted_perm es).mem_iff

theorem pairwise_insertSorted (e : String × α) {es : List (String × α)}
    (hes : es.Pairwise fun a b ↦ a.1 ≤ b.1) :
    (insertSorted e es).Pairwise fun a b ↦ a.1 ≤ b.1 := by
  induction es with
  | nil => exact List.pairwise_singleton _ _
  | cons f es ih =>
    rw [List.pairwise_cons] at hes
    rw [insertSorted]
    by_cases hlt : f.1 < e.1
    · rw [if_pos hlt, List.pairwise_cons]
      refine ⟨fun x hx ↦ ?_, ih hes.2⟩
      rcases List.mem_cons.mp ((insertSorted_perm e es).mem_iff.mp hx) with rfl | hx
      · exact le_of_lt hlt
      · exact hes.1 x hx
    · have hle : e.1 ≤ f.1 := not_lt.mp hlt
      rw [if_neg hlt, List.pairwise_cons, List.pairwise_cons]
      refine ⟨fun x hx ↦ ?_, hes⟩
      rcases List.mem_cons.mp hx with rfl | hx
      · exact hle
      · exact le_trans hle (hes.1 x hx)

theorem pairwise_sorted (es : List (String × α)) :
    (sorted es).Pairwise fun a b ↦ a.1 ≤ b.1 := by
  induction es with
  | nil => exact List.Pairwise.nil
  | cons e es ih =>
    rw [sorted_cons]
    exact pairwise_insertSorted e ih

/-- Distinct keys ascend strictly. -/
theorem pairwise_lt_sorted {es : List (String × α)} (h : (es.map Prod.fst).Nodup) :
    (sorted es).Pairwise fun a b ↦ a.1 < b.1 := by
  have hkeys : ((sorted es).map Prod.fst).Nodup := ((sorted_perm es).map Prod.fst).nodup_iff.mpr h
  have hne : (sorted es).Pairwise fun a b ↦ a.1 ≠ b.1 := List.pairwise_map.mp hkeys
  exact (pairwise_sorted es).imp₂ (fun _ _ hle hne ↦ lt_of_le_of_ne hle hne) hne

theorem insertSorted_of_forall_le {e : String × α} {es : List (String × α)}
    (h : ∀ f ∈ es, e.1 ≤ f.1) : insertSorted e es = e :: es := by
  cases es with
  | nil => rfl
  | cons f es => rw [insertSorted, if_neg (not_lt.mpr (h f List.mem_cons_self))]

theorem sorted_of_pairwise {es : List (String × α)}
    (h : es.Pairwise fun a b ↦ a.1 ≤ b.1) : sorted es = es := by
  induction es with
  | nil => rfl
  | cons e es ih =>
    rw [List.pairwise_cons] at h
    rw [sorted_cons, ih h.2, insertSorted_of_forall_le h.1]

/-- Sorting what is sorted changes nothing. -/
@[simp] theorem sorted_sorted (es : List (String × α)) : sorted (sorted es) = sorted es :=
  sorted_of_pairwise (pairwise_sorted es)

/-- Distinct keys have only one order. -/
theorem sorted_eq_of_perm {es fs : List (String × α)} (hes : (es.map Prod.fst).Nodup)
    (h : es.Perm fs) : sorted es = sorted fs := by
  have hperm : (sorted es).Perm (sorted fs) :=
    (sorted_perm es).trans (h.trans (sorted_perm fs).symm)
  refine hperm.eq_of_pairwise ?_ (pairwise_sorted es) (pairwise_sorted fs)
  intro a b ha hb hab hba
  have hkey : a.1 = b.1 := le_antisymm hab hba
  have hmem : a ∈ es := mem_sorted.mp ha
  have hmem' : b ∈ es := h.mem_iff.mpr (mem_sorted.mp hb)
  exact List.inj_on_of_nodup_map hes hmem hmem' hkey

end Props

namespace Datum

mutual

/-- The data with the entries of every map in the order of their keys. -/
def ordered : Datum → Datum
  | .list items => .list (orderedItems items)
  | .map entries => .map (Props.sorted (orderedEntries entries))
  | d => d

def orderedItems : List Datum → List Datum
  | [] => []
  | d :: rest => ordered d :: orderedItems rest

def orderedEntries : List (String × Datum) → List (String × Datum)
  | [] => []
  | (key, v) :: rest => (key, ordered v) :: orderedEntries rest

end

theorem orderedItems_eq_map (items : List Datum) : orderedItems items = items.map ordered := by
  induction items with
  | nil => rfl
  | cons d items ih => rw [orderedItems, ih, List.map_cons]

theorem orderedEntries_eq_map (entries : List (String × Datum)) :
    orderedEntries entries = entries.map fun e ↦ (e.1, e.2.ordered) := by
  induction entries with
  | nil => rfl
  | cons e entries ih => rw [orderedEntries, ih, List.map_cons]

theorem ordered_list (items : List Datum) : (list items).ordered = .list (items.map ordered) := by
  rw [ordered, orderedItems_eq_map]

theorem ordered_map (entries : List (String × Datum)) : (map entries).ordered
    = .map ((Props.sorted entries).map fun e ↦ (e.1, e.2.ordered)) := by
  rw [ordered, orderedEntries_eq_map]
  exact congrArg map (Props.sorted_map (fun e ↦ (e.1, e.2.ordered)) (fun _ ↦ rfl) entries)

end Datum

end CodeAtlas
