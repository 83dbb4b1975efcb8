import CodeAtlas.Json.Writer
import CodeAtlas.Proofs.Sorting
import Mathlib.Data.List.Basic
import Std.Data.String.ToInt

/-!
# The canonical form is unambiguous

Written data can be read back from the front of a longer text: where it ends is known from the data
itself, so two texts that begin with the written form of something begin with the same thing. This
is what makes the text of a graph element stand for the element.

The statements all have the shape

```text
write a ++ r = write b ++ s   →   a = b ∧ r = s,
```

which composes along concatenations without any talk of positions. Only a number or a word has no end
of its own; it is followed by a comma, by a bracket or by nothing, and `Closed` says so.

Maps are written in the order of their keys. They are therefore determined up to that order, and the
statements about maps end in an equation between sorted entries, at every depth: `Datum.ordered`.
Floats are left out, whose text is another matter, and dates, which are written as texts.
-/

namespace CodeAtlas

namespace Json

/-! ## Texts

A character is written as itself or as an escape. The escapes form a prefix code, which is checked
on the few characters that have one; everything else is settled by the first character. -/

/-- What a test finds of the members of a list. It goes through the members, not through all
characters. -/
private theorem forall_mem_of_all {P : Char → Prop} [DecidablePred P] {cs : List Char}
    (h : cs.all (fun c ↦ decide (P c)) = true) : ∀ c ∈ cs, P c :=
  fun c hc ↦ of_decide_eq_true (List.all_eq_true.mp h c hc)

/-- The characters that are not written as themselves. -/
private def escaped : List Char := '"' :: '\\' :: (List.range 32).map Char.ofNat

private theorem mem_escaped_of_toNat_lt {c : Char} (h : c.toNat < 32) : c ∈ escaped := by
  refine List.mem_cons_of_mem _ (List.mem_cons_of_mem _ (List.mem_map.mpr ⟨c.toNat, ?_, ?_⟩))
  · exact List.mem_range.mpr h
  · exact Char.ofNat_toNat c

private theorem writeChar_of_not_escaped {c : Char} (h : c ∉ escaped) :
    writeChar false c = [c] := by
  have hn : ∀ d ∈ escaped, ¬ c = d := fun d hd hc ↦ h (hc ▸ hd)
  have hlow : ¬ c.toNat < 32 := fun hc ↦ h (mem_escaped_of_toNat_lt hc)
  have hmem : ∀ d ∈ ['"', '\\', '\n', '\r', '\t', '\x08', '\x0c'], d ∈ escaped :=
    forall_mem_of_all (by decide)
  have hne : ∀ d ∈ ['"', '\\', '\n', '\r', '\t', '\x08', '\x0c'], (c == d) = false :=
    fun d hd ↦ beq_eq_false_iff_ne.mpr (hn d (hmem d hd))
  simp only [List.forall_mem_cons] at hne
  simp [writeChar, hne, hlow]

private theorem head_writeChar_of_escaped : ∀ c ∈ escaped, (writeChar false c).head? = some '\\' :=
  forall_mem_of_all (by decide)

private theorem writeChar_prefix_of_escaped :
    ∀ c ∈ escaped, ∀ d ∈ escaped, (writeChar false c).isPrefixOf (writeChar false d) → c = d := by
  have hall : escaped.all (fun c ↦ escaped.all fun d ↦
      decide ((writeChar false c).isPrefixOf (writeChar false d) → c = d)) = true := by
    decide +kernel
  exact fun c hc ↦ forall_mem_of_all (List.all_eq_true.mp hall c hc)

private theorem writeChar_eq_cons_of_escaped {c : Char} (h : c ∈ escaped) :
    ∃ cs, writeChar false c = '\\' :: cs := by
  have hhead := head_writeChar_of_escaped c h
  cases hw : writeChar false c with
  | nil => simp [hw] at hhead
  | cons a cs =>
    rw [hw, List.head?_cons, Option.some.injEq] at hhead
    exact ⟨cs, by rw [hhead]⟩

/-- Written characters can be told apart without looking ahead. -/
theorem writeChar_append_inj {c d : Char} {r s : List Char}
    (h : writeChar false c ++ r = writeChar false d ++ s) : c = d ∧ r = s := by
  have hcd : c = d := by
    by_cases hc : c ∈ escaped
    · by_cases hd : d ∈ escaped
      · have hpre : writeChar false d <+: writeChar false c ++ r := h ▸ List.prefix_append _ _
        rcases List.prefix_or_prefix_of_prefix (List.prefix_append _ r) hpre with hp | hp
        · exact writeChar_prefix_of_escaped c hc d hd (List.isPrefixOf_iff_prefix.mpr hp)
        · exact (writeChar_prefix_of_escaped d hd c hc (List.isPrefixOf_iff_prefix.mpr hp)).symm
      · obtain ⟨cs, hcs⟩ := writeChar_eq_cons_of_escaped hc
        rw [hcs, writeChar_of_not_escaped hd, List.cons_append, List.cons_append] at h
        exact absurd ((List.cons.inj h).1 ▸ List.mem_cons_of_mem _ List.mem_cons_self) hd
    · rw [writeChar_of_not_escaped hc] at h
      by_cases hd : d ∈ escaped
      · obtain ⟨ds, hds⟩ := writeChar_eq_cons_of_escaped hd
        rw [hds, List.cons_append, List.cons_append] at h
        exact absurd ((List.cons.inj h).1 ▸ List.mem_cons_of_mem _ List.mem_cons_self) hc
      · rw [writeChar_of_not_escaped hd] at h
        exact (List.cons.inj h).1
  subst hcd
  exact ⟨rfl, List.append_cancel_left h⟩

private theorem writeChar_ne_quote (c : Char) : ∃ a cs, writeChar false c = a :: cs ∧ a ≠ '"' := by
  by_cases hc : c ∈ escaped
  · obtain ⟨cs, hcs⟩ := writeChar_eq_cons_of_escaped hc
    exact ⟨'\\', cs, hcs, by decide⟩
  · refine ⟨c, [], writeChar_of_not_escaped hc, fun h ↦ hc ?_⟩
    exact h ▸ List.mem_cons_self

private theorem flatMap_writeChar_append_inj {cs ds : List Char} {r s : List Char}
    (h : cs.flatMap (writeChar false) ++ '"' :: r = ds.flatMap (writeChar false) ++ '"' :: s) :
    cs = ds ∧ r = s := by
  induction cs generalizing ds with
  | nil =>
    cases ds with
    | nil => exact ⟨rfl, (List.cons.inj h).2⟩
    | cons d ds =>
      obtain ⟨a, as, ha, hne⟩ := writeChar_ne_quote d
      rw [List.flatMap_cons, ha] at h
      exact absurd (List.cons.inj h).1.symm hne
  | cons c cs ih =>
    cases ds with
    | nil =>
      obtain ⟨a, as, ha, hne⟩ := writeChar_ne_quote c
      rw [List.flatMap_cons, ha] at h
      exact absurd (List.cons.inj h).1 hne
    | cons d ds =>
      rw [List.flatMap_cons, List.flatMap_cons, List.append_assoc, List.append_assoc] at h
      obtain ⟨rfl, hrest⟩ := writeChar_append_inj h
      obtain ⟨rfl, hr⟩ := ih hrest
      exact ⟨rfl, hr⟩

theorem writeText_append_inj {s t : String} {r r' : List Char}
    (h : writeText false s ++ r = writeText false t ++ r') : s = t ∧ r = r' := by
  simp only [writeText, List.cons_append, List.append_assoc] at h
  obtain ⟨hst, hr⟩ := flatMap_writeChar_append_inj (List.cons.inj h).2
  exact ⟨String.toList_injective hst, hr⟩

end Json

/-! ## Scalars -/

/-- Texts, whole numbers, truth values and null. -/
def Datum.IsScalar : Datum → Prop
  | .null | .bool _ | .int _ | .text _ => True
  | _ => False

@[simp] theorem Datum.isScalar_text (s : String) : (Datum.text s).IsScalar := trivial

theorem Datum.IsScalar.ordered_eq {d : Datum} (h : d.IsScalar) : d.ordered = d := by
  cases d with
  | list items => exact h.elim
  | map entries => exact h.elim
  | _ => rfl

namespace Json

open Datum (IsScalar)

/-- Nothing, or what follows an item of a collection: the next item, or the end. -/
def Closed (r : List Char) : Prop := ∀ c ∈ r.head?, c = ',' ∨ c = ']' ∨ c = '\x7d'

theorem closed_nil : Closed [] := fun _ h ↦ absurd h (by simp)

private theorem closed_cons {c : Char} (h : c = ',' ∨ c = ']' ∨ c = '\x7d') (r : List Char) :
    Closed (c :: r) := by
  intro d hd
  obtain rfl := Option.some.inj hd
  exact h

/-- What the scalars without quotes are written with. -/
private def isWordPart (c : Char) : Bool := c.isAlphanum || c == '-'

private theorem takeWhile_isWordPart {r : List Char} (hr : Closed r) : r.takeWhile isWordPart = [] := by
  cases r with
  | nil => rfl
  | cons c r => rcases hr c rfl with rfl | rfl | rfl <;> rfl

/-- A word ends where the item ends. -/
private theorem append_inj_of_closed {u v r s : List Char} (hu : ∀ c ∈ u, isWordPart c = true)
    (hv : ∀ c ∈ v, isWordPart c = true) (hr : Closed r) (hs : Closed s) (h : u ++ r = v ++ s) :
    u = v ∧ r = s := by
  have htake := congrArg (List.takeWhile isWordPart) h
  rw [List.takeWhile_append_of_pos hu, List.takeWhile_append_of_pos hv, takeWhile_isWordPart hr,
    takeWhile_isWordPart hs, List.append_nil, List.append_nil] at htake
  subst htake
  exact ⟨rfl, List.append_cancel_left h⟩

/-- A number is written with digits and a sign. -/
private theorem mem_toString_int {n : Int} {c : Char} (h : c ∈ (toString n).toList) :
    c.isDigit ∨ c = '-' := by
  rw [Int.toString_eq_repr, Int.repr_eq_if] at h
  by_cases hn : 0 ≤ n
  · rw [if_pos hn, Nat.toList_repr] at h
    exact Or.inl (Nat.isDigit_of_mem_toDigits (by decide) (by decide) h)
  · rw [if_neg hn, String.toList_append, Nat.toList_repr] at h
    rcases List.mem_append.mp h with h | h
    · exact Or.inr (by simpa using h)
    · exact Or.inl (Nat.isDigit_of_mem_toDigits (by decide) (by decide) h)

private theorem toString_int_ne_nil (n : Int) : (toString n).toList ≠ [] := by
  rw [Int.toString_eq_repr, Int.repr_eq_if]
  split
  · rw [Nat.toList_repr]
    exact Nat.toDigits_ne_nil
  · rw [String.toList_append]
    exact List.append_ne_nil_of_left_ne_nil (by decide) _

private theorem toString_int_ne {n : Int} {s : String}
    (hs : ∃ c ∈ s.toList, ¬ c.isDigit ∧ c ≠ '-') : ¬ (toString n).toList = s.toList := by
  intro h
  obtain ⟨c, hc, hdigit, hsign⟩ := hs
  exact (mem_toString_int (h ▸ hc)).elim hdigit hsign

/-- The word for a scalar that is neither a text nor a number. -/
private def word? : Datum → Option String
  | .null => some "null"
  | .bool true => some "true"
  | .bool false => some "false"
  | _ => none

private theorem word?_inj {d e : Datum} {s : String} (hd : word? d = some s)
    (he : word? e = some s) : d = e := by
  unfold word? at hd he
  split at hd <;> split at he <;>
    first
    | rfl
    | exact absurd (hd.trans he.symm) (by decide)
    | exact absurd hd (by simp)

private theorem word_cases {d : Datum} (hd : d.IsScalar) (hdt : ∀ s, ¬ d = .text s) :
    (∃ k, d = .int k) ∨ ∃ s, word? d = some s ∧ (∀ n, writeAt .canonical n d = s.toList) ∧
      (∃ c ∈ s.toList, ¬ c.isDigit ∧ c ≠ '-') ∧ ∀ c ∈ s.toList, isWordPart c = true := by
  cases d with
  | null => exact Or.inr ⟨"null", rfl, fun _ ↦ rfl, ⟨'n', by decide⟩, forall_mem_of_all (by decide)⟩
  | bool b =>
    cases b
    · exact Or.inr ⟨"false", rfl, fun _ ↦ rfl, ⟨'f', by decide⟩, forall_mem_of_all (by decide)⟩
    · exact Or.inr ⟨"true", rfl, fun _ ↦ rfl, ⟨'t', by decide⟩, forall_mem_of_all (by decide)⟩
  | int k => exact Or.inl ⟨k, rfl⟩
  | text s => exact absurd rfl (hdt s)
  | float | date | list | map => exact hd.elim

/-- Scalars without quotes are told apart by their whole text. -/
private theorem writeAt_inj_of_not_text {n m : Nat} {d e : Datum} (hd : d.IsScalar)
    (he : e.IsScalar) (hdt : ∀ s, ¬ d = .text s) (het : ∀ s, ¬ e = .text s)
    (h : writeAt .canonical n d = writeAt .canonical m e) : d = e := by
  obtain ⟨k, rfl⟩ | ⟨s, hs, hsd, hletter, -⟩ := word_cases hd hdt
  · obtain ⟨l, rfl⟩ | ⟨t, -, hte, hletter, -⟩ := word_cases he het
    · rw [writeAt, writeAt, Int.toString_eq_repr, Int.toString_eq_repr] at h
      rw [Int.repr_injective (String.toList_injective h)]
    · rw [hte, writeAt] at h
      exact absurd h (toString_int_ne hletter)
  · obtain ⟨l, rfl⟩ | ⟨t, ht, hte, -, -⟩ := word_cases he het
    · rw [hsd, writeAt] at h
      exact absurd h.symm (toString_int_ne hletter)
    · rw [hsd, hte] at h
      exact word?_inj hs (String.toList_injective h ▸ ht)

private theorem isWordPart_of_mem {n : Nat} {d : Datum} (hd : d.IsScalar) (hdt : ∀ s, ¬ d = .text s) :
    ∀ c ∈ writeAt .canonical n d, isWordPart c = true := by
  intro c hc
  obtain ⟨k, rfl⟩ | ⟨s, -, hsd, -, hword⟩ := word_cases hd hdt
  · rw [writeAt] at hc
    rcases mem_toString_int hc with hdigit | rfl
    · rw [isWordPart, Char.isAlphanum, hdigit, Bool.or_true, Bool.true_or]
    · rfl
  · exact hword c (hsd n ▸ hc)

/-- A text begins with a quote, and any other scalar with a part of a word. -/
private theorem writeAt_scalar_eq_cons {n : Nat} {d : Datum} (hd : d.IsScalar) :
    ∃ c cs, writeAt .canonical n d = c :: cs ∧
      ((∃ s, d = .text s) ∧ c = '"' ∨ (∀ s, ¬ d = .text s) ∧ isWordPart c = true) := by
  by_cases hdt : ∃ s, d = .text s
  · obtain ⟨s, rfl⟩ := hdt
    exact ⟨'"', _, rfl, Or.inl ⟨⟨s, rfl⟩, rfl⟩⟩
  · have hdt := not_exists.mp hdt
    have hne : writeAt .canonical n d ≠ [] := by
      obtain ⟨k, rfl⟩ | ⟨s, -, hsd, ⟨c, hc, -⟩, -⟩ := word_cases hd hdt
      · exact toString_int_ne_nil k
      · exact hsd n ▸ List.ne_nil_of_mem hc
    obtain ⟨c, cs, hw⟩ := List.exists_cons_of_ne_nil hne
    exact ⟨c, cs, hw, Or.inr ⟨hdt, isWordPart_of_mem hd hdt c (hw ▸ List.mem_cons_self)⟩⟩

theorem writeAt_scalar_append_inj {n m : Nat} {d e : Datum} {r s : List Char} (hd : d.IsScalar)
    (he : e.IsScalar) (hr : Closed r) (hs : Closed s)
    (h : writeAt .canonical n d ++ r = writeAt .canonical m e ++ s) : d = e ∧ r = s := by
  obtain ⟨c, cs, hdc, hd'⟩ := writeAt_scalar_eq_cons (n := n) hd
  obtain ⟨c', cs', hec, he'⟩ := writeAt_scalar_eq_cons (n := m) he
  obtain rfl : c = c' := by
    rw [hdc, hec] at h
    exact (List.cons.inj h).1
  rcases hd' with ⟨⟨t, rfl⟩, hquote⟩ | ⟨hdt, hword⟩
  · rcases he' with ⟨⟨u, rfl⟩, -⟩ | ⟨-, hword⟩
    · obtain ⟨rfl, hrs⟩ := writeText_append_inj h
      exact ⟨rfl, hrs⟩
    · exact absurd (hquote ▸ hword) (by decide)
  · rcases he' with ⟨-, hquote⟩ | ⟨het, -⟩
    · exact absurd (hquote ▸ hword) (by decide)
    · obtain ⟨hw, hrs⟩ := append_inj_of_closed (isWordPart_of_mem (n := n) hd hdt)
        (isWordPart_of_mem (n := m) he het) hr hs h
      exact ⟨writeAt_inj_of_not_text hd he hdt het hw, hrs⟩

/-! ## Collections

Items and entries are put together in the same way, so both are treated as texts `f x` of which each
can be read back from the front. What is read back is `k x`, which for an entry has its value with
sorted maps. -/

theorem writeItems_eq_map (style : Style) (level : Nat) (items : List Datum) :
    writeItems style level items = items.map (writeAt style level) := by
  induction items with
  | nil => rfl
  | cons d items ih => rw [writeItems, ih, List.map_cons]

/-- An entry on its own. -/
def writeEntry (style : Style) (level : Nat) (e : String × Datum) : List Char :=
  writeText style.ascii e.1 ++ style.keySeparator.toList ++ writeAt style level e.2

theorem writeEntries_eq_map (style : Style) (level : Nat) (es : Props) :
    writeEntries style level es = es.map fun e ↦ (e.1, writeEntry style level e) := by
  induction es with
  | nil => rfl
  | cons e es ih =>
    rw [writeEntries, ih, List.map_cons]
    rfl

/-- Entries may be sorted before they are written. -/
theorem sorted_writeEntries (style : Style) (level : Nat) (es : Props) :
    Props.sorted (writeEntries style level es) = writeEntries style level (Props.sorted es) := by
  rw [writeEntries_eq_map, writeEntries_eq_map]
  exact Props.sorted_map (fun e ↦ (e.1, writeEntry style level e)) (fun _ ↦ rfl) es

/-- What stands behind the first text: the other ones and the end of the collection. -/
private def restText (closing : Char) (r : List Char) : List (List Char) → List Char
  | [] => closing :: r
  | w :: ws => ',' :: ' ' :: (w ++ restText closing r ws)

private theorem joinItems_append (level : Nat) (closing : Char) (r w : List Char)
    (ws : List (List Char)) : joinItems .canonical level (w :: ws) ++ closing :: r
      = w ++ restText closing r ws := by
  induction ws generalizing w with
  | nil => rfl
  | cons v ws ih =>
    rw [joinItems, List.append_assoc, ih v]
    · simp [restText, Style.canonical, lineBreak]
    · simp

private theorem enclose_append (level : Nat) (opening closing : Char) (r : List Char)
    (ws : List (List Char)) : enclose .canonical level opening closing ws ++ r
      = opening :: match ws with
        | [] => closing :: r
        | w :: ws => w ++ restText closing r ws := by
  cases ws with
  | nil => rfl
  | cons w ws =>
    rw [enclose, if_neg (by simp), List.cons_append]
    congr 1
    simp only [lineBreak, Style.canonical, List.nil_append, List.append_assoc, List.append_nil]
    exact joinItems_append (level + 1) closing r w ws

section Items

variable {α β : Type} {f g : α → List Char} {k : α → β} {xs ys : List α} {closing : Char}
  {r s : List Char}

/-- The texts of the items can be told apart, whatever follows them in the collection. -/
private def ToldApart (f g : α → List Char) (k : α → β) (xs ys : List α) : Prop :=
  ∀ x ∈ xs, ∀ y ∈ ys, ∀ r s, Closed r → Closed s → f x ++ r = g y ++ s → k x = k y ∧ r = s

variable (hclosing : closing = ']' ∨ closing = '\x7d')

include hclosing

private theorem closed_restText (r : List Char) (ws : List (List Char)) :
    Closed (restText closing r ws) := by
  cases ws with
  | nil => exact closed_cons (Or.inr hclosing) r
  | cons w ws => exact closed_cons (Or.inl rfl) _

private theorem restText_inj (hinj : ToldApart f g k xs ys)
    (h : restText closing r (xs.map f) = restText closing s (ys.map g)) :
    xs.map k = ys.map k ∧ r = s := by
  have hcomma : closing ≠ ',' := by
    rcases hclosing with rfl | rfl <;> decide
  induction xs generalizing ys with
  | nil =>
    cases ys with
    | nil => exact ⟨rfl, (List.cons.inj h).2⟩
    | cons y ys => exact absurd (List.cons.inj h).1 hcomma
  | cons x xs ih =>
    cases ys with
    | nil => exact absurd (List.cons.inj h).1.symm hcomma
    | cons y ys =>
      obtain ⟨hxy, hrest⟩ := hinj x List.mem_cons_self y List.mem_cons_self _ _
        (closed_restText hclosing _ _) (closed_restText hclosing _ _)
        (List.cons.inj (List.cons.inj h).2).2
      obtain ⟨hxs, hrs⟩ := ih (fun x hx y hy ↦
        hinj x (List.mem_cons_of_mem _ hx) y (List.mem_cons_of_mem _ hy)) hrest
      exact ⟨by rw [List.map_cons, List.map_cons, hxy, hxs], hrs⟩

/-- An end of its own makes a collection independent of what follows it. -/
private theorem enclose_append_inj {n m : Nat} {opening : Char} (hinj : ToldApart f g k xs ys)
    (hf : ∀ x ∈ xs, ∃ c cs, f x = c :: cs ∧ c ≠ closing)
    (hg : ∀ y ∈ ys, ∃ c cs, g y = c :: cs ∧ c ≠ closing)
    (h : enclose .canonical n opening closing (xs.map f) ++ r
      = enclose .canonical m opening closing (ys.map g) ++ s) : xs.map k = ys.map k ∧ r = s := by
  rw [enclose_append, enclose_append] at h
  replace h := (List.cons.inj h).2
  cases xs with
  | nil =>
    cases ys with
    | nil => exact ⟨rfl, (List.cons.inj h).2⟩
    | cons y ys =>
      obtain ⟨c, cs, hc, hne⟩ := hg y List.mem_cons_self
      rw [List.map_cons, hc] at h
      exact absurd (List.cons.inj h).1.symm hne
  | cons x xs =>
    cases ys with
    | nil =>
      obtain ⟨c, cs, hc, hne⟩ := hf x List.mem_cons_self
      rw [List.map_cons, hc] at h
      exact absurd (List.cons.inj h).1 hne
    | cons y ys =>
      -- Both collections go on as after a comma.
      refine restText_inj hclosing hinj ?_
      exact congrArg (fun t ↦ ',' :: ' ' :: t) h

end Items

/-! ## Composed data -/

end Json

/-- Scalars, and lists and maps of these at any depth. -/
inductive Datum.IsComposed : Datum → Prop
  | scalar {d : Datum} (h : d.IsScalar) : IsComposed d
  | list {items : List Datum} (h : ∀ d ∈ items, IsComposed d) : IsComposed (.list items)
  | map {entries : List (String × Datum)} (h : ∀ e ∈ entries, IsComposed e.2) :
      IsComposed (.map entries)

namespace Json

open Datum (IsScalar IsComposed)

/-- The bracket that a collection begins with. -/
private def bracket? : Datum → Option Char
  | .list _ => some '['
  | .map _ => some '\x7b'
  | _ => none

private theorem writeAt_map_eq (level : Nat) (ps : Props) : writeAt .canonical level (.map ps)
    = enclose .canonical level '\x7b' '\x7d'
      ((Props.sorted ps).map (writeEntry .canonical (level + 1))) := by
  have hkeys : Style.canonical.sortKeys = true := rfl
  rw [writeAt, if_pos hkeys, sorted_writeEntries, writeEntries_eq_map, List.map_map]
  rfl

private theorem enclose_eq_cons (style : Style) (level : Nat) (opening closing : Char)
    (ws : List (List Char)) : ∃ cs, enclose style level opening closing ws = opening :: cs := by
  rw [enclose]
  split <;> exact ⟨_, rfl⟩

theorem writeAt_map_eq_cons (level : Nat) (ps : Props) :
    ∃ cs, writeAt .canonical level (.map ps) = '\x7b' :: cs := by
  obtain ⟨cs, hcs⟩ := enclose_eq_cons .canonical level '\x7b' '\x7d' _
  exact ⟨cs, (writeAt_map_eq level ps).trans hcs⟩

/-- The first character says whether a collection begins, and it ends none. -/
private theorem writeAt_eq_cons (level : Nat) {d : Datum} (hd : d.IsComposed) :
    ∃ c cs, writeAt .canonical level d = c :: cs ∧ c ≠ ']' ∧ c ≠ '\x7d' ∧
      bracket? d = if c = '[' ∨ c = '\x7b' then some c else none := by
  cases hd with
  | @scalar d h =>
    obtain ⟨c, cs, hw, hc⟩ := writeAt_scalar_eq_cons (n := level) h
    have hnone : bracket? d = none := by
      cases d with
      | list items => exact h.elim
      | map entries => exact h.elim
      | _ => rfl
    have hother : ∀ b, isWordPart b = false → b ≠ '"' → c ≠ b := by
      rintro b hb hquote rfl
      rcases hc with ⟨-, hc⟩ | ⟨-, hc⟩
      · exact hquote hc
      · exact Bool.false_ne_true (hb.symm.trans hc)
    refine ⟨c, cs, hw, hother _ (by decide) (by decide), hother _ (by decide) (by decide), ?_⟩
    rw [hnone, if_neg]
    rintro (h | h)
    · exact hother _ (by decide) (by decide) h
    · exact hother _ (by decide) (by decide) h
  | list h =>
    obtain ⟨cs, hcs⟩ := enclose_eq_cons .canonical level '[' ']' (writeItems .canonical (level + 1) _)
    exact ⟨'[', cs, by rw [writeAt, hcs], by decide, by decide, rfl⟩
  | @map entries h =>
    obtain ⟨cs, hcs⟩ := writeAt_map_eq_cons level entries
    exact ⟨'\x7b', cs, hcs, by decide, by decide, rfl⟩

/-- Data with one beginning are of one kind. -/
private theorem bracket?_congr {n m : Nat} {d e : Datum} {r s : List Char} (hd : d.IsComposed)
    (he : e.IsComposed) (h : writeAt .canonical n d ++ r = writeAt .canonical m e ++ s) :
    bracket? d = bracket? e := by
  obtain ⟨c, cs, hdc, -, -, hd'⟩ := writeAt_eq_cons n hd
  obtain ⟨c', cs', hec, -, -, he'⟩ := writeAt_eq_cons m he
  rw [hdc, hec] at h
  rw [hd', he', (List.cons.inj h).1]

private theorem list_append_inj {n m : Nat} {items items' : List Datum} {r s : List Char}
    (hitems : ∀ d ∈ items, d.IsComposed) (hitems' : ∀ d ∈ items', d.IsComposed)
    (hinj : ∀ n m, ToldApart (writeAt .canonical n) (writeAt .canonical m) Datum.ordered items items')
    (h : writeAt .canonical n (.list items) ++ r = writeAt .canonical m (.list items') ++ s) :
    (Datum.list items).ordered = (Datum.list items').ordered ∧ r = s := by
  rw [writeAt, writeAt, writeItems_eq_map, writeItems_eq_map] at h
  obtain ⟨hmap, hrs⟩ := enclose_append_inj (Or.inl rfl) (hinj _ _)
    (fun d hd ↦ by
      obtain ⟨c, cs, hw, hc, -⟩ := writeAt_eq_cons (n + 1) (hitems d hd)
      exact ⟨c, cs, hw, hc⟩)
    (fun d hd ↦ by
      obtain ⟨c, cs, hw, hc, -⟩ := writeAt_eq_cons (m + 1) (hitems' d hd)
      exact ⟨c, cs, hw, hc⟩) h
  rw [Datum.ordered_list, Datum.ordered_list, hmap]
  exact ⟨rfl, hrs⟩

/-- An entry begins with its key, so that only the values have to be told apart. -/
private theorem toldApart_writeEntry {n m : Nat} {es fs : Props}
    (hinj : ∀ e ∈ es, ∀ f ∈ fs, ∀ r s, Closed r → Closed s →
      writeAt .canonical n e.2 ++ r = writeAt .canonical m f.2 ++ s →
        e.2.ordered = f.2.ordered ∧ r = s) :
    ToldApart (writeEntry .canonical n) (writeEntry .canonical m) (fun e ↦ (e.1, e.2.ordered))
      es fs := by
  intro e he f hf r s hr hs h
  rw [writeEntry, writeEntry, List.append_assoc, List.append_assoc, List.append_assoc,
    List.append_assoc] at h
  obtain ⟨hkey, hrest⟩ := writeText_append_inj h
  obtain ⟨hvalue, hrs⟩ := hinj e he f hf r s hr hs (List.append_cancel_left hrest)
  exact ⟨Prod.ext hkey hvalue, hrs⟩

private theorem map_append_inj {n m : Nat} {es fs : Props} {r s : List Char}
    (hinj : ∀ n m, ∀ e ∈ es, ∀ f ∈ fs, ∀ r s, Closed r → Closed s →
      writeAt .canonical n e.2 ++ r = writeAt .canonical m f.2 ++ s →
        e.2.ordered = f.2.ordered ∧ r = s)
    (h : writeAt .canonical n (.map es) ++ r = writeAt .canonical m (.map fs) ++ s) :
    (Datum.map es).ordered = (Datum.map fs).ordered ∧ r = s := by
  have hquote : ∀ level (e : String × Datum),
      ∃ c cs, writeEntry .canonical level e = c :: cs ∧ c ≠ '\x7d' :=
    fun level e ↦ ⟨'"', _, rfl, by decide⟩
  rw [writeAt_map_eq, writeAt_map_eq] at h
  obtain ⟨hmap, hrs⟩ := enclose_append_inj (Or.inr rfl)
    (toldApart_writeEntry fun e he f hf ↦
      hinj _ _ e (Props.mem_sorted.mp he) f (Props.mem_sorted.mp hf))
    (fun e _ ↦ hquote _ e) (fun f _ ↦ hquote _ f) h
  rw [Datum.ordered_map, Datum.ordered_map, hmap]
  exact ⟨rfl, hrs⟩

/-- **Data are determined by their written form**, up to the order of the entries of maps. -/
theorem writeAt_append_inj {n m : Nat} {d e : Datum} {r s : List Char} (hd : d.IsComposed)
    (he : e.IsComposed) (hr : Closed r) (hs : Closed s)
    (h : writeAt .canonical n d ++ r = writeAt .canonical m e ++ s) :
    d.ordered = e.ordered ∧ r = s := by
  induction hd generalizing n m e r s with
  | @scalar d hd =>
    have hkind := bracket?_congr (.scalar hd) he h
    cases he with
    | scalar he =>
      obtain ⟨rfl, hrs⟩ := writeAt_scalar_append_inj hd he hr hs h
      exact ⟨rfl, hrs⟩
    | _ => cases d <;> first | exact hd.elim | exact nomatch hkind
  | list hd ih =>
    have hkind := bracket?_congr (.list hd) he h
    cases he with
    | @scalar e he => cases e <;> first | exact he.elim | exact nomatch hkind
    | list he =>
      exact list_append_inj hd he (fun _ _ x hx y hy _ _ hr hs h ↦ ih x hx (he y hy) hr hs h) h
    | map he => exact nomatch hkind
  | map hd ih =>
    have hkind := bracket?_congr (.map hd) he h
    cases he with
    | @scalar e he => cases e <;> first | exact he.elim | exact nomatch hkind
    | list he => exact nomatch hkind
    | map he =>
      exact map_append_inj (fun _ _ x hx y hy _ _ hr hs h ↦ ih x hx (he y hy) hr hs h) h

theorem writeAt_map_congr {level : Nat} {es fs : Props} (h : Props.sorted es = Props.sorted fs) :
    writeAt .canonical level (.map es) = writeAt .canonical level (.map fs) := by
  rw [writeAt_map_eq, writeAt_map_eq, h]

/-- **Maps of scalars** are determined by their written form, up to the order of their entries. -/
theorem writeAt_map_append_inj {n m : Nat} {es fs : Props} {r s : List Char}
    (hes : ∀ e ∈ es, e.2.IsScalar) (hfs : ∀ f ∈ fs, f.2.IsScalar)
    (h : writeAt .canonical n (.map es) ++ r = writeAt .canonical m (.map fs) ++ s) :
    Props.sorted es = Props.sorted fs ∧ r = s := by
  have hself : ∀ {ps : Props}, (∀ e ∈ ps, e.2.IsScalar) →
      (Props.sorted ps).map (fun e ↦ (e.1, e.2.ordered)) = Props.sorted ps := by
    intro ps hps
    have hentry : ∀ e ∈ Props.sorted ps, (e.1, e.2.ordered) = id e := fun e he ↦
      Prod.ext rfl (hps e (Props.mem_sorted.mp he)).ordered_eq
    rw [List.map_congr_left hentry, List.map_id]
  obtain ⟨hordered, hrs⟩ := map_append_inj (fun _ _ e he f hf _ _ hr hs h ↦ by
    obtain ⟨hef, hrs⟩ := writeAt_scalar_append_inj (hes e he) (hfs f hf) hr hs h
    exact ⟨congrArg Datum.ordered hef, hrs⟩) h
  rw [Datum.ordered_map, Datum.ordered_map, hself hes, hself hfs] at hordered
  exact ⟨Datum.map.inj hordered, hrs⟩

end Json

end CodeAtlas
