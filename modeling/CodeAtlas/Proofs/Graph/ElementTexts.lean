import CodeAtlas.Proofs.Graph.Canonical
import CodeAtlas.Proofs.Graph.Ids

/-!
# The text of an element says what the element is

The id of an element is the digest of a text that is written from its parts. If two lists of parts
had the same text, their elements would be merged into one, and no digest could prevent it. They have
the same text only if they are the same list of parts, except that the entries of a map may have come
in another order, at any depth (`idText_unambiguous`).

## Two ways to say the same

That data differ in the order of entries only is said twice. `Datum.Alike` says it in terms of
look-ups: two maps are alike if they have the same keys, and alike data at each of them. The writer
works with `Datum.ordered`, where the entries of every map are sorted; this is what is read back from
a text. The two agree on data whose maps have each key once (`ordered_eq_iff`).
-/

namespace CodeAtlas

namespace Datum

/-! ## Data up to the order of entries -/

/-- Equal but for the order in which the entries of maps came. Truth values are no numbers here. -/
inductive Alike : Datum → Datum → Prop
  | refl (d : Datum) : Alike d d
  | list {xs ys : List Datum} (hlength : xs.length = ys.length)
      (h : ∀ p ∈ xs.zip ys, Alike p.1 p.2) : Alike (.list xs) (.list ys)
  | map {es fs : List (String × Datum)}
      (hkeys : ∀ key, key ∈ es.map Prod.fst ↔ key ∈ fs.map Prod.fst)
      (h : ∀ key v w, (key, v) ∈ es → (key, w) ∈ fs → Alike v w) : Alike (.map es) (.map fs)

/-- Composed of scalars by lists and maps, and no map has a key twice. -/
inductive IsKeyed : Datum → Prop
  | scalar {d : Datum} (h : d.IsScalar) : IsKeyed d
  | list {items : List Datum} (h : ∀ d ∈ items, IsKeyed d) : IsKeyed (.list items)
  | map {entries : List (String × Datum)} (hkeys : (entries.map Prod.fst).Nodup)
      (h : ∀ e ∈ entries, IsKeyed e.2) : IsKeyed (.map entries)

variable {d e : Datum}

theorem IsKeyed.isComposed (h : d.IsKeyed) : d.IsComposed := by
  induction h with
  | scalar h => exact .scalar h
  | list _ ih => exact .list ih
  | map _ _ ih => exact .map ih

theorem isKeyed_list {items : List Datum} : (list items).IsKeyed ↔ ∀ d ∈ items, d.IsKeyed := by
  refine ⟨fun h ↦ ?_, .list⟩
  cases h with
  | scalar h => exact h.elim
  | list h => exact h

theorem isKeyed_map {entries : Props} :
    (map entries).IsKeyed ↔ (entries.map Prod.fst).Nodup ∧ ∀ e ∈ entries, e.2.IsKeyed := by
  refine ⟨fun h ↦ ?_, fun h ↦ .map h.1 h.2⟩
  cases h with
  | scalar h => exact h.elim
  | map hkeys h => exact ⟨hkeys, h⟩

@[simp] theorem isKeyed_text (s : String) : (text s).IsKeyed := .scalar trivial

theorem Alike.length_eq {xs ys : List Datum} (h : (Datum.list xs).Alike (.list ys)) :
    xs.length = ys.length := by
  cases h with
  | refl => rfl
  | list hlength => exact hlength

/-- Two entries change places. -/
theorem Alike.swap {key key' : String} {v v' w w' : Datum} (hkey : key ≠ key') (hv : v.Alike v')
    (hw : w.Alike w') :
    (Datum.map [(key, v), (key', w)]).Alike (.map [(key', w'), (key, v')]) := by
  refine .map (fun _ ↦ by simp [or_comm]) fun other x y hx hy ↦ ?_
  simp only [List.mem_cons, Prod.mk.injEq, List.not_mem_nil, or_false] at hx hy
  rcases hx with ⟨rfl, rfl⟩ | ⟨rfl, rfl⟩
  · rcases hy with ⟨h, -⟩ | ⟨-, rfl⟩
    · exact absurd h hkey
    · exact hv
  · rcases hy with ⟨-, rfl⟩ | ⟨h, -⟩
    · exact hw
    · exact absurd h.symm hkey

/-! ## Sorted data -/

private theorem isScalar_ordered (d : Datum) : d.ordered.IsScalar ↔ d.IsScalar := by
  cases d with
  | list items =>
    rw [ordered_list]
    exact Iff.rfl
  | map entries =>
    rw [ordered_map]
    exact Iff.rfl
  | _ => exact Iff.rfl

private theorem isScalar_congr (h : d.ordered = e.ordered) : d.IsScalar ↔ e.IsScalar := by
  rw [← isScalar_ordered d, h, isScalar_ordered]

private theorem map_ordered_eq_iff {xs ys : List Datum} : xs.map ordered = ys.map ordered ↔
    xs.length = ys.length ∧ ∀ p ∈ xs.zip ys, p.1.ordered = p.2.ordered := by
  have hitems : xs.map ordered = ys.map ordered ↔
      List.Forall₂ (fun x y ↦ x.ordered = y.ordered) xs ys := by
    rw [← List.forall₂_eq_eq_eq, List.forall₂_map_left_iff, List.forall₂_map_right_iff]
  rw [hitems, List.forall₂_iff_zip, Prod.forall]

/-- The entry with its value sorted. -/
private def orderedEntry (e : String × Datum) : String × Datum := (e.1, e.2.ordered)

private theorem ordered_map_eq (es : Props) :
    (map es).ordered = .map (Props.sorted (es.map orderedEntry)) := by
  rw [ordered, orderedEntries_eq_map]
  rfl

private theorem nodup_orderedEntries {es : Props} (hes : (es.map Prod.fst).Nodup) :
    ((es.map orderedEntry).map Prod.fst).Nodup := by
  rw [List.map_map]
  exact hes

private theorem subset_orderedEntries {es fs : Props}
    (hkeys : ∀ key ∈ es.map Prod.fst, key ∈ fs.map Prod.fst)
    (h : ∀ key v w, (key, v) ∈ es → (key, w) ∈ fs → v.ordered = w.ordered) :
    es.map orderedEntry ⊆ fs.map orderedEntry := by
  intro x hx
  obtain ⟨⟨key, v⟩, he, rfl⟩ := List.mem_map.mp hx
  obtain ⟨⟨key', w⟩, hf, rfl⟩ := List.mem_map.mp (hkeys key (List.mem_map_of_mem he))
  have hvalue : v.ordered = w.ordered := h key' v w he hf
  exact List.mem_map.mpr ⟨(key', w), hf, Prod.ext rfl hvalue.symm⟩

theorem Alike.ordered_eq (h : d.Alike e) (hd : d.IsKeyed) (he : e.IsKeyed) :
    d.ordered = e.ordered := by
  induction h with
  | refl d => rfl
  | list hlength _ ih =>
    rw [isKeyed_list] at hd he
    rw [ordered_list, ordered_list]
    refine congrArg Datum.list (map_ordered_eq_iff.mpr ⟨hlength, fun p hp ↦ ?_⟩)
    exact ih p hp (hd _ (List.of_mem_zip hp).1) (he _ (List.of_mem_zip hp).2)
  | @map es fs hkeys _ ih =>
    rw [isKeyed_map] at hd he
    have hvalue : ∀ key v w, (key, v) ∈ es → (key, w) ∈ fs → v.ordered = w.ordered :=
      fun key v w hv hw ↦ ih key v w hv hw (hd.2 _ hv) (he.2 _ hw)
    have hsub := subset_orderedEntries (fun key ↦ (hkeys key).mp) hvalue
    have hsub' := subset_orderedEntries (fun key ↦ (hkeys key).mpr)
      fun key v w hv hw ↦ (hvalue key w v hw hv).symm
    have hperm : (es.map orderedEntry).Perm (fs.map orderedEntry) :=
      (List.perm_ext_iff_of_nodup (nodup_orderedEntries hd.1).of_map
        (nodup_orderedEntries he.1).of_map).mpr fun _ ↦ ⟨@hsub _, @hsub' _⟩
    rw [ordered_map_eq, ordered_map_eq]
    exact congrArg Datum.map (Props.sorted_eq_of_perm (nodup_orderedEntries hd.1) hperm)

/-- Maps that are equal once sorted have the same entries. -/
private theorem alike_map {es fs : Props} (hfs : (fs.map Prod.fst).Nodup)
    (hvalue : ∀ e ∈ es, ∀ f ∈ fs, e.2.ordered = f.2.ordered → e.2.Alike f.2)
    (h : (map es).ordered = (map fs).ordered) : (map es).Alike (map fs) := by
  rw [ordered_map_eq, ordered_map_eq] at h
  have hperm : (es.map orderedEntry).Perm (fs.map orderedEntry) :=
    (Props.sorted_perm _).symm.trans (map.inj h ▸ Props.sorted_perm _)
  have hkeys := hperm.map Prod.fst
  rw [List.map_map, List.map_map] at hkeys
  refine .map (fun key ↦ hkeys.mem_iff) fun key v w hv hw ↦ hvalue _ hv _ hw ?_
  obtain ⟨⟨key', w'⟩, hw', heq⟩ := List.mem_map.mp (hperm.mem_iff.mp (List.mem_map_of_mem hv))
  obtain ⟨rfl, hordered⟩ := Prod.mk.inj heq
  obtain rfl : w' = w := congrArg Prod.snd (List.inj_on_of_nodup_map hfs hw' hw rfl)
  exact hordered.symm

theorem alike_of_ordered_eq (hd : d.IsKeyed) (he : e.IsKeyed) (h : d.ordered = e.ordered) :
    d.Alike e := by
  induction hd generalizing e with
  | @scalar d hd =>
    have hscalar : e.IsScalar := (isScalar_congr h).mp hd
    rw [hd.ordered_eq, hscalar.ordered_eq] at h
    exact h ▸ .refl d
  | list hd ih =>
    cases he with
    | scalar he => exact False.elim ((isScalar_congr h).mpr he)
    | list he =>
      rw [ordered_list, ordered_list] at h
      obtain ⟨hlength, hitems⟩ := map_ordered_eq_iff.mp (list.inj h)
      refine .list hlength fun p hp ↦ ih _ (List.of_mem_zip hp).1 ?_ (hitems p hp)
      exact he _ (List.of_mem_zip hp).2
    | map hkeys he => exact nomatch (ordered_list _).symm.trans (h.trans (ordered_map _))
  | map hkeys hd ih =>
    cases he with
    | scalar he => exact False.elim ((isScalar_congr h).mpr he)
    | list he => exact nomatch (ordered_map _).symm.trans (h.trans (ordered_list _))
    | map hkeys' he => exact alike_map hkeys' (fun e hmem f hf ↦ ih e hmem (he f hf)) h

/-- **Sorting the entries of every map** takes the same data from alike data, and only from these. -/
theorem ordered_eq_iff (hd : d.IsKeyed) (he : e.IsKeyed) : d.ordered = e.ordered ↔ d.Alike e :=
  ⟨alike_of_ordered_eq hd he, fun h ↦ h.ordered_eq hd he⟩

end Datum

namespace Graph

open Datum (IsKeyed)

variable {parts parts' : List Datum}

/-! ## Texts of parts -/

theorem idText_eq_idText_iff (hparts : ∀ d ∈ parts, d.IsKeyed)
    (hparts' : ∀ d ∈ parts', d.IsKeyed) :
    idText parts = idText parts' ↔ (Datum.list parts).Alike (.list parts') := by
  rw [← Datum.ordered_eq_iff (.list hparts) (.list hparts')]
  constructor
  · intro h
    have hwritten : Json.writeAt .canonical 0 (.list parts) ++ []
        = Json.writeAt .canonical 0 (.list parts') ++ [] := by
      rw [List.append_nil, List.append_nil]
      exact String.ofList_injective h
    have hcomposed := (IsKeyed.list hparts).isComposed
    have hcomposed' := (IsKeyed.list hparts').isComposed
    exact (Json.writeAt_append_inj hcomposed hcomposed' Json.closed_nil Json.closed_nil hwritten).1
  · intro h
    exact congrArg String.ofList (Json.writeAt_eq_of_ordered h)

/-- **The text of an element is unambiguous.** Lists of parts that are composed of texts, whole
numbers, truth values and null by lists and maps, at any depth, have the same text if and only if they
are equal up to the order of entries. In particular

* no node has the text of a relationship, whatever properties the two have;
* two functions have the same text if and only if they have the same name and the same path. -/
theorem idText_unambiguous :
    (∀ parts parts' : List Datum, (∀ d ∈ parts, d.IsKeyed) → (∀ d ∈ parts', d.IsKeyed) →
      (idText parts = idText parts' ↔ (Datum.list parts).Alike (.list parts'))) ∧
    (∀ label key type source target attrs,
      nodeText label key ≠ relationshipText type source target attrs) ∧
    ∀ name path name' path', nodeText functionLabel (functionKey (.text name) (.text path))
        = nodeText functionLabel (functionKey (.text name') (.text path'))
      ↔ name = name' ∧ path = path' := by
  refine ⟨fun _ _ ↦ idText_eq_idText_iff, nodeText_ne_relationshipText, ?_⟩
  intro name path name' path'
  exact functionId_inj Function.injective_id

/-- A text that looks like two, and a map in a list in a map. -/
def quotedParts : List Datum :=
  [.text "a\", \"b", .map [("k\\", .list [.map [("y", .null), ("x", .int (-1))]]), ("", .bool true)]]

/-- The same parts, their entries in another order. -/
def shuffledParts : List Datum :=
  [.text "a\", \"b", .map [("", .bool true), ("k\\", .list [.map [("x", .int (-1)), ("y", .null)]])]]

/-- The parts that the first text looks like. -/
def splitParts : List Datum :=
  [.text "a", .text "b", .map [("", .bool true), ("k\\", .list [.map [("x", .int (-1)), ("y", .null)]])]]

theorem idText_unambiguous_quoted : (∀ d ∈ quotedParts, d.IsKeyed) ∧
    (∀ d ∈ shuffledParts, d.IsKeyed) ∧ (∀ d ∈ splitParts, d.IsKeyed) ∧
      idText quotedParts = idText shuffledParts ∧ idText quotedParts ≠ idText splitParts := by
  have hnull : Datum.null.IsKeyed := .scalar trivial
  have hint : (Datum.int (-1)).IsKeyed := .scalar trivial
  have hbool : (Datum.bool true).IsKeyed := .scalar trivial
  have hquoted : ∀ d ∈ quotedParts, d.IsKeyed := by
    simp [quotedParts, Datum.isKeyed_map, Datum.isKeyed_list, hnull, hint, hbool]
  have hshuffled : ∀ d ∈ shuffledParts, d.IsKeyed := by
    simp [shuffledParts, Datum.isKeyed_map, Datum.isKeyed_list, hnull, hint, hbool]
  have hsplit : ∀ d ∈ splitParts, d.IsKeyed := by
    simp [splitParts, Datum.isKeyed_map, Datum.isKeyed_list, hnull, hint, hbool]
  have hinner : (Datum.map [("y", .null), ("x", .int (-1))]).Alike
      (.map [("x", .int (-1)), ("y", .null)]) :=
    .swap (fun h ↦ absurd h (by decide)) (.refl _) (.refl _)
  have hitem : (Datum.list [.map [("y", .null), ("x", .int (-1))]]).Alike
      (.list [.map [("x", .int (-1)), ("y", .null)]]) := .list rfl (by simpa using hinner)
  have hkeys : "k\\" ≠ "" := by decide
  have houter := Datum.Alike.swap hkeys hitem (.refl (.bool true))
  have halike : (Datum.list quotedParts).Alike (.list shuffledParts) :=
    .list rfl (by simpa [quotedParts, shuffledParts] using ⟨.refl _, houter⟩)
  refine ⟨hquoted, hshuffled, hsplit,
    (idText_unambiguous.1 quotedParts shuffledParts hquoted hshuffled).mpr halike, fun h ↦ ?_⟩
  have hlength := ((idText_unambiguous.1 quotedParts splitParts hquoted hsplit).mp h).length_eq
  exact absurd hlength (by decide)

end Graph

end CodeAtlas
