import CodeAtlas.Proofs.Json.Spelling
import CodeAtlas.Proofs.Json.Unambiguous

/-!
# Written data are read back

What is written in any style that puts a comma between items, a colon behind a key, and blanks or
line breaks around them, spells the data that are written. So it is read back as it was, with the
entries of every map in their order. A style that sorts writes the same data with the entries of
every map in the order of their keys, and these are read back (`Style.arranged`).
-/

namespace CodeAtlas.Json

/-! ## Styles -/

/-- The styles whose separators the reader takes. -/
structure Style.IsPlain (style : Style) : Prop where
  item : ∃ gap, style.itemSeparator.toList = ',' :: gap ∧ Gap gap
  key : ∃ gap, style.keySeparator.toList = ':' :: gap ∧ Gap gap

theorem isPlain_pretty : Style.pretty.IsPlain :=
  ⟨⟨[], rfl, gap_nil⟩, ⟨[' '], rfl, List.forall_mem_singleton.mpr rfl⟩⟩

theorem isPlain_file : Style.file.IsPlain := ⟨isPlain_pretty.item, isPlain_pretty.key⟩

theorem isPlain_line : Style.line.IsPlain :=
  ⟨⟨[' '], rfl, List.forall_mem_singleton.mpr rfl⟩, ⟨[' '], rfl, List.forall_mem_singleton.mpr rfl⟩⟩

namespace Style

variable (style : Style)

/-- The entries of a map in the order in which a style writes them. -/
def inOrder {α : Type} (entries : List (String × α)) : List (String × α) :=
  if style.sortKeys then Props.sorted entries else entries

/-- The data with the entries of every map in the order in which a style writes them. -/
def arranged (d : Datum) : Datum := if style.sortKeys then d.ordered else d

theorem inOrder_perm {α : Type} (entries : List (String × α)) :
    (style.inOrder entries).Perm entries := by
  rw [inOrder]
  split
  · exact Props.sorted_perm entries
  · exact List.Perm.refl entries

theorem arranged_of_unsorted {style : Style} (h : style.sortKeys = false) (d : Datum) :
    style.arranged d = d := by
  rw [arranged, h, if_neg Bool.false_ne_true]

theorem arranged_of_sorted {style : Style} (h : style.sortKeys = true) (d : Datum) :
    style.arranged d = d.ordered := if_pos h

theorem arranged_scalar {d : Datum} (h : d.ordered = d) : style.arranged d = d := by
  rw [arranged, h, ite_self]

theorem arranged_list (items : List Datum) :
    style.arranged (.list items) = .list (items.map style.arranged) := by
  cases h : style.sortKeys with
  | false =>
    have hid : style.arranged = id := funext (arranged_of_unsorted h)
    rw [hid, List.map_id]
    rfl
  | true =>
    have hordered : style.arranged = Datum.ordered := funext (arranged_of_sorted h)
    rw [hordered, Datum.ordered_list]

theorem arranged_map (entries : List (String × Datum)) : style.arranged (.map entries)
    = .map ((style.inOrder entries).map fun e ↦ (e.1, style.arranged e.2)) := by
  cases h : style.sortKeys with
  | false => simp [arranged_of_unsorted h, inOrder, h]
  | true =>
    simp only [arranged_of_sorted h, inOrder, h, if_true]
    exact Datum.ordered_map entries

end Style

variable {style : Style} {level depth : Nat} {d : Datum}

/-- Sorting does not take readable data out of the bounds. -/
theorem Readable.arranged (h : Readable depth d) : Readable depth (style.arranged d) := by
  induction h with
  | null =>
    rw [style.arranged_scalar rfl]
    exact .null
  | bool b =>
    rw [style.arranged_scalar rfl]
    exact .bool b
  | int h =>
    rw [style.arranged_scalar rfl]
    exact .int h
  | text s =>
    rw [style.arranged_scalar rfl]
    exact .text s
  | list _ ih =>
    rw [Style.arranged_list]
    exact .list (List.forall_mem_map.mpr ih)
  | map hkeys _ ih =>
    rw [Style.arranged_map]
    refine .map ?_ (List.forall_mem_map.mpr fun e he ↦ ih e ((style.inOrder_perm _).mem_iff.mp he))
    rw [List.map_map]
    exact ((style.inOrder_perm _).map Prod.fst).nodup_iff.mpr hkeys

/-! ## What is written -/

theorem gap_lineBreak (style : Style) (level : Nat) : Gap (lineBreak style level) := by
  rw [lineBreak]
  cases style.indent with
  | none => exact gap_nil
  | some width =>
    rw [Gap, List.forall_mem_cons]
    exact ⟨rfl, fun c hc ↦ by rw [List.eq_of_mem_replicate hc]; rfl⟩

theorem writeAt_map (style : Style) (level : Nat) (entries : List (String × Datum)) :
    writeAt style level (.map entries) = enclose style level '\x7b' '\x7d'
      ((style.inOrder entries).map (writeEntry style (level + 1))) := by
  have hordered : (if style.sortKeys then Props.sorted (writeEntries style (level + 1) entries)
      else writeEntries style (level + 1) entries)
        = writeEntries style (level + 1) (style.inOrder entries) := by
    rw [Style.inOrder, sorted_writeEntries]
    split <;> rfl
  rw [writeAt, hordered, writeEntries_eq_map, List.map_map]
  rfl

section Joined

variable (hstyle : style.IsPlain) {before after : List Char} (hbefore : Gap before)
  (hafter : Gap after)

include hstyle

/-- Between two items there is a comma, and then blanks. -/
private theorem exists_joinItems_cons_cons (level : Nat) : ∃ gap, Gap gap ∧
    ∀ v w ws, joinItems style level (v :: w :: ws)
      = v ++ ',' :: (gap ++ joinItems style level (w :: ws)) := by
  obtain ⟨gap, hsep, hgap⟩ := hstyle.item
  refine ⟨gap ++ lineBreak style level, hgap.append (gap_lineBreak style level), fun v w ws ↦ ?_⟩
  rw [joinItems, hsep]
  · simp only [List.append_assoc, List.cons_append]
  · exact List.cons_ne_nil _ _

include hbefore hafter

theorem spellsItems_joinItems {items : List Datum} (hne : items ≠ [])
    (hitems : ∀ d ∈ items, Spells (style.arranged d) (writeAt style level d)) :
    SpellsItems (items.map style.arranged)
      (before ++ joinItems style level (items.map (writeAt style level)) ++ after) := by
  obtain ⟨gap, hgap, hjoin⟩ := exists_joinItems_cons_cons hstyle level
  induction items generalizing before with
  | nil => exact absurd rfl hne
  | cons d items ih =>
    rw [List.forall_mem_cons] at hitems
    cases items with
    | nil => exact .last hbefore hitems.1 hafter
    | cons e items =>
      have hmore := SpellsItems.more hbefore hitems.1 gap_nil
        (ih hgap (List.cons_ne_nil e items) hitems.2)
      rw [List.map_cons, List.map_cons, List.map_cons, List.map_cons, hjoin]
      simp only [List.map_cons, List.append_nil, List.append_assoc, List.cons_append] at hmore ⊢
      exact hmore

omit hafter in
/-- An entry begins with its key, and behind the colon there are blanks. -/
private theorem exists_writeEntry_eq (level : Nat) (e : String × Datum) :
    ∃ key gap, SpellsKey e.1 key ∧ Gap gap ∧
      before ++ writeEntry style level e = key ++ ':' :: (gap ++ writeAt style level e.2) := by
  obtain ⟨gap, hsep, hgap⟩ := hstyle.key
  refine ⟨before ++ writeText style.ascii e.1 ++ [], gap,
    ⟨before, style.ascii, [], hbefore, gap_nil, rfl⟩, hgap, ?_⟩
  rw [writeEntry, hsep]
  simp only [List.append_nil, List.append_assoc, List.cons_append]

theorem spellsEntries_joinItems {entries : List (String × Datum)} (hne : entries ≠ [])
    (hentries : ∀ e ∈ entries, Spells (style.arranged e.2) (writeAt style level e.2)) :
    SpellsEntries (entries.map fun e ↦ (e.1, style.arranged e.2))
      (before ++ joinItems style level (entries.map (writeEntry style level)) ++ after) := by
  obtain ⟨gap, hgap, hjoin⟩ := exists_joinItems_cons_cons hstyle level
  induction entries generalizing before with
  | nil => exact absurd rfl hne
  | cons e entries ih =>
    rw [List.forall_mem_cons] at hentries
    obtain ⟨key, gap', hkey, hgap', hentry⟩ := exists_writeEntry_eq hstyle hbefore level e
    cases entries with
    | nil =>
      have hlast := SpellsEntries.last hkey hgap' hentries.1 hafter
      rw [List.map_singleton, List.map_singleton, joinItems, hentry]
      simp only [List.append_assoc, List.cons_append] at hlast ⊢
      exact hlast
    | cons f entries =>
      have hmore := SpellsEntries.more hkey hgap' hentries.1 gap_nil
        (ih hgap (List.cons_ne_nil f entries) hentries.2)
      rw [List.map_cons, List.map_cons, List.map_cons, List.map_cons, hjoin, ← List.append_assoc,
        hentry]
      simp only [List.map_cons, List.append_nil, List.append_assoc, List.cons_append] at hmore ⊢
      exact hmore

end Joined

/-! ## Round trips -/

/-- What is written spells the data that are written. -/
theorem spells_writeAt (hstyle : style.IsPlain) (h : Readable depth d) (level : Nat) :
    Spells (style.arranged d) (writeAt style level d) := by
  induction h generalizing level with
  | null =>
    rw [style.arranged_scalar rfl]
    exact .null
  | bool b =>
    rw [style.arranged_scalar rfl]
    exact .bool b
  | @int _ n _ =>
    rw [style.arranged_scalar rfl]
    exact .int n
  | text s =>
    rw [style.arranged_scalar rfl]
    exact .text style.ascii s
  | @list depth items _ ih =>
    rw [writeAt, writeItems_eq_map, Style.arranged_list, enclose]
    split
    · rename_i hempty
      rw [List.map_eq_nil_iff.mp (List.isEmpty_iff.mp hempty)]
      exact .emptyList gap_nil
    · rename_i hfull
      have hne : items ≠ [] := by
        rintro rfl
        exact hfull rfl
      exact .list (spellsItems_joinItems hstyle (gap_lineBreak style (level + 1))
        (gap_lineBreak style level) hne fun d hd ↦ ih d hd (level + 1))
  | @map depth entries _ _ ih =>
    rw [writeAt_map, Style.arranged_map, enclose]
    split
    · rename_i hempty
      rw [List.map_eq_nil_iff.mp (List.isEmpty_iff.mp hempty)]
      exact .emptyMap gap_nil
    · rename_i hfull
      have hne : style.inOrder entries ≠ [] := by
        intro hnil
        rw [hnil] at hfull
        exact hfull rfl
      exact .map (spellsEntries_joinItems hstyle (gap_lineBreak style (level + 1))
        (gap_lineBreak style level) hne fun e he ↦
          ih e ((style.inOrder_perm entries).mem_iff.mp he) (level + 1))

/-- **What is written is read back.** -/
theorem read_write (hstyle : style.IsPlain) (h : Readable maxDepth d) :
    read (write style d) = .ok (style.arranged d) :=
  read_of_spells (spells_writeAt hstyle h 0) h.arranged

end CodeAtlas.Json
