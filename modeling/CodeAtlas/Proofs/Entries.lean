import CodeAtlas.Datum

/-!
# Entries by key

A map is a list of entries, and what has a key is found by going through them. These are the facts
about looking up and adding that hold whatever the values are: an entry that is added stands at the
end, and what was found before is still found.
-/

namespace CodeAtlas.Props

variable {α β : Type} {key other : String} {value found : α} {es : List (String × α)}

/-! ## Looking up -/

theorem mem_of_get? (h : get? key es = some value) : (key, value) ∈ es := by
  induction es with
  | nil => exact nomatch h
  | cons e es ih =>
    rw [get?] at h
    by_cases he : e.1 == key
    · rw [if_pos he] at h
      have hhead : e = (key, value) := Prod.ext (beq_iff_eq.mp he) (Option.some.inj h)
      exact hhead ▸ List.mem_cons_self
    · rw [if_neg he] at h
      exact List.mem_cons_of_mem _ (ih h)

/-- Where no key occurs twice, every entry is found. -/
theorem mem_iff_get? (hes : (es.map Prod.fst).Nodup) :
    (key, value) ∈ es ↔ get? key es = some value := by
  refine ⟨fun h ↦ ?_, mem_of_get?⟩
  induction es with
  | nil => exact absurd h List.not_mem_nil
  | cons e es ih =>
    rw [List.map_cons, List.nodup_cons] at hes
    rw [get?]
    rcases List.mem_cons.mp h with rfl | hmem
    · rw [beq_self_eq_true, if_pos rfl]
    · have hne : e.1 ≠ key := fun hk ↦ hes.1 (hk ▸ List.mem_map_of_mem hmem)
      rw [beq_eq_false_iff_ne.mpr hne]
      exact ih hes.2 hmem

theorem get?_append (key : String) (es es' : List (String × α)) :
    get? key (es ++ es') = (get? key es).or (get? key es') := by
  induction es with
  | nil => rfl
  | cons e es ih =>
    rw [List.cons_append, get?, get?]
    by_cases he : e.1 == key
    · simp [he]
    · simp [he, ih]

theorem isSome_get? (key : String) (es : List (String × α)) :
    (get? key es).isSome = contains key es := by
  induction es with
  | nil => rfl
  | cons e es ih =>
    rw [get?, contains, List.any_cons]
    by_cases he : e.1 == key
    · simp [he]
    · simpa [he, contains] using ih

/-- Entries that are made of values with names are looked up by name. -/
theorem get?_map_entry (name : β → String) (value : β → α) (key : String) (xs : List β) :
    get? key (xs.map fun x ↦ (name x, value x))
      = (xs.find? fun x ↦ name x == key).map value := by
  induction xs with
  | nil => rfl
  | cons x xs ih =>
    rw [List.map_cons, get?, List.find?_cons]
    by_cases hx : name x == key
    · simp [hx]
    · simp [hx, ih]

/-! ## Replacing -/

@[simp] theorem get?_insert_self (key : String) (value : α) (es : List (String × α)) :
    get? key (insert key value es) = some value := by
  induction es with
  | nil => simp [insert, get?]
  | cons e es ih =>
    rw [insert]
    by_cases he : e.1 == key
    · simp [he, get?]
    · simp [he, get?, ih]

theorem get?_insert_of_ne (h : other ≠ key) (value : α) (es : List (String × α)) :
    get? other (insert key value es) = get? other es := by
  induction es with
  | nil => simp [insert, get?, h.symm]
  | cons e es ih =>
    rw [insert]
    by_cases he : e.1 == key
    · have hother : ¬ e.1 = other := fun heq ↦ h (heq.symm.trans (beq_iff_eq.mp he))
      simp [he, get?, hother]
    · simp [he, get?, ih]

/-- A key that is not there gets its entry at the end. -/
theorem insert_eq_append (h : contains key es = false) (value : α) :
    insert key value es = es ++ [(key, value)] := by
  induction es with
  | nil => rfl
  | cons e es ih =>
    rw [contains, List.any_cons, Bool.or_eq_false_iff] at h
    have hrest : insert key value es = es ++ [(key, value)] := ih h.2
    simp [insert, h.1, hrest]

/-! ## Adding -/

/-- The entries with one more at the end, unless there is one of the key. -/
def addNew (key : String) (value : α) (es : List (String × α)) : List (String × α) :=
  if contains key es then es else es ++ [(key, value)]

theorem get?_addNew_of_some (h : get? other es = some found) :
    get? other (addNew key value es) = some found := by
  rw [addNew]
  split
  · exact h
  · rw [get?_append, h, Option.some_or]

theorem exists_get?_addNew (key : String) (value : α) (es : List (String × α)) :
    ∃ found, get? key (addNew key value es) = some found := by
  rw [← Option.isSome_iff_exists, addNew]
  split
  · rename_i hold
    rw [isSome_get?, hold]
  · rw [get?_append, Option.isSome_or]
    simp [get?]

/-- An entry that is found is an old one or the new one. -/
theorem get?_addNew (h : get? other (addNew key value es) = some found) :
    get? other es = some found ∨ other = key ∧ found = value := by
  rw [addNew] at h
  split at h
  · exact Or.inl h
  · rw [get?_append, Option.or_eq_some_iff] at h
    rcases h with hold | ⟨-, hnew⟩
    · exact Or.inl hold
    · rw [get?] at hnew
      split at hnew
      · rename_i hkey
        exact Or.inr ⟨(beq_iff_eq.mp hkey).symm, (Option.some.inj hnew).symm⟩
      · exact nomatch hnew

end CodeAtlas.Props
