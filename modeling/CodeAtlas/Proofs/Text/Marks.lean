import CodeAtlas.Query.Reply
import Mathlib.Data.List.DropRight
import Mathlib.Data.List.Infix

/-!
# Texts around marks

A text that is searched for a mark is cut where the mark stands for the first time. This place is
known without a search: the mark stands there, and the text up to the last character of the mark
does not hold it (`cut?_append`). Where there is no such place there is no mark
(`cut?_eq_none_iff`).

That a mark does not begin earlier and reach over its own beginning is a question about the
characters of the mark. It is settled by any character before the mark that is none of the mark's
own (`infix_append_cons_iff`), and whatever stands there by a first character that does not come
back in the mark (`not_infix_append_dropLast`).
-/

namespace CodeAtlas

/-! ## Parts of a text -/

theorem infix_append_cons_iff {α : Type} {c : α} {part xs ys : List α} (hc : c ∉ part) :
    part <:+: xs ++ c :: ys ↔ part <:+: xs ∨ part <:+: ys := by
  constructor
  · intro h
    rcases List.infix_append_iff.mp h with hxs | hys | ⟨start, rest, rfl, hstart, hrest⟩
    · exact Or.inl hxs
    · rcases List.infix_cons_iff.mp hys with hhead | hys
      · rcases List.prefix_cons_iff.mp hhead with rfl | ⟨tail, rfl, -⟩
        · exact Or.inl List.nil_infix
        · exact absurd List.mem_cons_self hc
      · exact Or.inr hys
    · -- The part would begin before `c` and end behind it.
      rcases List.prefix_cons_iff.mp hrest with rfl | ⟨tail, rfl, -⟩
      · rw [List.append_nil]
        exact Or.inl hstart.isInfix
      · exact absurd (List.mem_append_right _ List.mem_cons_self) hc
  · rintro (hxs | hys)
    · exact List.infix_append_of_infix_left hxs
    · exact List.infix_append_of_infix_right (List.infix_cons hys)

/-- A mark whose first character does not come back in it does not reach over its own beginning. -/
theorem not_infix_append_dropLast {α : Type} {m : α} {ms cs : List α} (hm : m ∉ ms)
    (h : ¬ (m :: ms) <:+: cs) : ¬ (m :: ms) <:+: cs ++ (m :: ms).dropLast := by
  rw [List.infix_append_iff]
  rintro (hcs | hmark | ⟨start, rest, heq, hstart, hrest⟩)
  · exact h hcs
  · have hlength := hmark.length_le
    rw [List.length_dropLast, List.length_cons] at hlength
    omega
  · cases start with
    | nil =>
      have hlength := hrest.length_le
      rw [← List.nil_append rest, ← heq, List.length_dropLast, List.length_cons] at hlength
      omega
    | cons c start =>
      rw [List.cons_append, List.cons.injEq] at heq
      obtain ⟨rfl, rfl⟩ := heq
      cases rest with
      | nil => exact h (by simpa using hstart.isInfix)
      | cons d rest =>
        -- The mark would begin again with `d`.
        obtain ⟨tail, htail⟩ := hrest.trans (List.dropLast_prefix _)
        obtain rfl := (List.cons.inj htail).1
        exact hm (List.mem_append_right _ List.mem_cons_self)

/-- Leaving out from the front stops at the first character that has to stay. -/
theorem dropWhile_append_cons {α : Type} {p : α → Bool} {c : α} (hc : p c = false)
    (xs ys : List α) : (xs ++ c :: ys).dropWhile p = xs.dropWhile p ++ c :: ys := by
  rw [List.dropWhile_append, List.dropWhile_cons_of_neg (Bool.not_eq_true _ ▸ hc)]
  split
  · rename_i h
    rw [List.isEmpty_iff.mp h, List.nil_append]
  · rfl

namespace Reply

/-! ## Cutting -/

variable {mark cs before after : List Char}

theorem cut?_eq_none_iff : cut? mark cs = none ↔ ¬ mark <:+: cs := by
  induction cs with
  | nil => cases mark <;> simp [cut?]
  | cons c rest ih =>
    rw [cut?, List.infix_cons_iff, ← List.isPrefixOf_iff_prefix]
    split
    · rename_i h
      simp [h]
    · rename_i h
      simp [h, ih]

/-- Nothing of the text is lost. -/
theorem eq_append_of_cut? (h : cut? mark cs = some (before, after)) :
    cs = before ++ (mark ++ after) := by
  induction cs generalizing before with
  | nil =>
    cases mark with
    | nil =>
      obtain ⟨rfl, rfl⟩ := Prod.mk.inj (Option.some.inj h)
      rfl
    | cons m ms => exact absurd h (by simp [cut?])
  | cons c rest ih =>
    rw [cut?] at h
    split at h
    · rename_i hmark
      obtain ⟨tail, htail⟩ := List.isPrefixOf_iff_prefix.mp hmark
      obtain ⟨rfl, rfl⟩ := Prod.mk.inj (Option.some.inj h)
      rw [← htail, List.drop_left, List.nil_append]
    · obtain ⟨⟨p, q⟩, hp, heq⟩ := Option.map_eq_some_iff.mp h
      obtain ⟨rfl, rfl⟩ := Prod.mk.inj heq
      rw [ih hp, List.cons_append]

/-- The text is cut at the first mark, so there is none before. -/
theorem not_infix_of_cut? (hmark : mark ≠ []) (h : cut? mark cs = some (before, after)) :
    ¬ mark <:+: before := by
  have hcs := eq_append_of_cut? h
  induction cs generalizing before with
  | nil =>
    have hnil : mark = [] := by simp_all
    exact absurd hnil hmark
  | cons c rest ih =>
    rw [cut?] at h
    split at h
    · obtain ⟨rfl, -⟩ := Prod.mk.inj (Option.some.inj h)
      exact fun hinfix ↦ hmark (List.infix_nil.mp hinfix)
    · rename_i hprefix
      obtain ⟨⟨p, q⟩, hp, heq⟩ := Option.map_eq_some_iff.mp h
      obtain ⟨rfl, rfl⟩ := Prod.mk.inj heq
      obtain ⟨-, hrest⟩ := List.cons.inj hcs
      rw [List.infix_cons_iff, not_or]
      refine ⟨fun hhead ↦ hprefix (List.isPrefixOf_iff_prefix.mpr ?_), ih hp hrest⟩
      rw [hcs]
      exact hhead.trans (List.prefix_append _ _)

/-- A mark that begins in a text and ends no later than the mark behind it. -/
private theorem prefix_append_dropLast (hmark : mark ≠ []) {c : Char}
    (h : mark <+: c :: (before ++ (mark ++ after))) : mark <+: c :: (before ++ mark.dropLast) := by
  have hlast : mark.dropLast <+: mark ++ after :=
    (List.dropLast_prefix mark).trans (List.prefix_append _ _)
  have htext : c :: (before ++ mark.dropLast) <+: c :: (before ++ (mark ++ after)) :=
    List.cons_prefix_cons.mpr ⟨rfl, (List.prefix_append_right_inj _).mpr hlast⟩
  refine List.prefix_of_prefix_length_le h htext ?_
  have hpos : 0 < mark.length := List.length_pos_iff.mpr hmark
  rw [List.length_cons, List.length_append, List.length_dropLast]
  omega

/-- **A text is cut at the first mark**, the one before whose last character no mark has ended. -/
theorem cut?_append (hfirst : ¬ mark <:+: before ++ mark.dropLast) :
    cut? mark (before ++ (mark ++ after)) = some (before, after) := by
  have hmark : mark ≠ [] := by
    rintro rfl
    exact hfirst List.nil_infix
  induction before with
  | nil =>
    obtain ⟨m, ms, rfl⟩ := List.exists_cons_of_ne_nil hmark
    have hprefix : (m :: ms).isPrefixOf (m :: (ms ++ after)) = true :=
      List.isPrefixOf_iff_prefix.mpr (List.prefix_append _ _)
    rw [List.nil_append, List.cons_append, cut?, if_pos hprefix, ← List.cons_append, List.drop_left]
  | cons c before ih =>
    rw [List.cons_append, List.infix_cons_iff, not_or] at hfirst
    have hprefix : mark.isPrefixOf (c :: (before ++ (mark ++ after))) ≠ true := by
      rw [Ne, List.isPrefixOf_iff_prefix]
      exact fun h ↦ hfirst.1 (prefix_append_dropLast hmark h)
    rw [List.cons_append, cut?, if_neg hprefix, ih hfirst.2]
    rfl

theorem dropReasoning_eq_self (h : ¬ reasoningStart <:+: cs) : dropReasoning cs = cs := by
  have hcut : cut? reasoningStart cs = none := cut?_eq_none_iff.mpr h
  rw [dropReasoning]
  split
  · rfl
  · rename_i hsome
    exact absurd (hcut.symm.trans hsome) (by simp)

/-- A reply without an opening mark has no reasoning. -/
theorem withoutReasoning_eq_trim {text : String} (h : ¬ reasoningStart <:+: text.toList) :
    withoutReasoning text = Text.trim text := by
  rw [withoutReasoning, dropReasoning_eq_self h, Text.trim]

end Reply

namespace Text

/-! ## Trimming -/

variable {cs gap : List Char}

theorem trimEndList_append (h : ∀ c ∈ gap, isBlank c = true) :
    trimEndList (cs ++ gap) = trimEndList cs := by
  have hreverse : ∀ c ∈ gap.reverse, isBlank c = true := fun c hc ↦ h c (List.mem_reverse.mp hc)
  rw [trimEndList, List.reverse_append, List.dropWhile_append_of_pos hreverse, trimEndList]

theorem trimList_append_right (h : ∀ c ∈ gap, isBlank c = true) :
    trimList (cs ++ gap) = trimList cs := by
  rw [trimList, trimList, trimStartList, trimStartList, List.dropWhile_append]
  split
  · rename_i hcs
    rw [List.isEmpty_iff.mp hcs, List.dropWhile_eq_nil_iff.mpr h]
  · exact trimEndList_append h

/-- Blanks that are left out first do not matter. -/
theorem trimList_dropWhile (cs : List Char) : trimList (cs.dropWhile isBlank) = trimList cs := by
  rw [trimList, trimStartList, List.dropWhile_idempotent, trimList, trimStartList]

/-- The number of the characters that are not blank. -/
def inkCount (cs : List Char) : Nat := cs.countP fun c ↦ !isBlank c

theorem inkCount_append (cs ds : List Char) : inkCount (cs ++ ds) = inkCount cs + inkCount ds :=
  List.countP_append

theorem inkCount_dropWhile (cs : List Char) : inkCount (cs.dropWhile isBlank) = inkCount cs := by
  have hgap : inkCount (cs.takeWhile isBlank) = 0 :=
    List.countP_eq_zero.mpr fun c hc ↦ by simp [List.mem_takeWhile_imp hc]
  conv_rhs => rw [← List.takeWhile_append_dropWhile (p := isBlank) (l := cs), inkCount_append, hgap,
    Nat.zero_add]

/-- Trimming leaves out blanks only. -/
theorem inkCount_trimList (cs : List Char) : inkCount (trimList cs) = inkCount cs := by
  have hreverse : ∀ ds : List Char, inkCount ds.reverse = inkCount ds :=
    fun ds ↦ List.countP_reverse
  rw [trimList, trimEndList, hreverse, inkCount_dropWhile, hreverse, trimStartList,
    inkCount_dropWhile]

theorem trimList_eq_nil_iff : trimList cs = [] ↔ inkCount cs = 0 := by
  constructor
  · intro h
    rw [← inkCount_trimList, h]
    rfl
  · intro h
    have hblank : ∀ c ∈ cs, isBlank c = true := by simpa [inkCount, List.countP_eq_zero] using h
    rw [trimList, trimStartList, List.dropWhile_eq_nil_iff.mpr hblank]
    rfl

/-- A text that is trimmed twice is blank if it was blank before. -/
theorem trim_eq_empty_iff (s : String) : trim (trim s) = "" ↔ trim s = "" := by
  have hempty : ∀ s : String, trim s = "" ↔ inkCount s.toList = 0 := by
    intro s
    rw [trim, ← String.toList_inj, String.toList_ofList]
    exact trimList_eq_nil_iff
  rw [hempty, hempty, trim, String.toList_ofList, inkCount_trimList]

private theorem toNat_of_isAlpha {c : Char} (h : c.isAlpha = true) :
    65 ≤ c.toNat ∧ c.toNat ≤ 90 ∨ 97 ≤ c.toNat ∧ c.toNat ≤ 122 := by
  rcases Bool.or_eq_true_iff.mp h with hupper | hlower
  · have hletter : 'A'.val ≤ c.val ∧ c.val ≤ 'Z'.val := of_decide_eq_true hupper
    have hge := UInt32.le_iff_toNat_le.mp hletter.1
    have hle := UInt32.le_iff_toNat_le.mp hletter.2
    exact Or.inl ⟨hge, hle⟩
  · have hletter : decide ('a'.val ≤ c.val) = true ∧ decide (c.val ≤ 'z'.val) = true :=
      Bool.and_eq_true_iff.mp hlower
    have hge := UInt32.le_iff_toNat_le.mp (of_decide_eq_true hletter.1)
    have hle := UInt32.le_iff_toNat_le.mp (of_decide_eq_true hletter.2)
    exact Or.inr ⟨hge, hle⟩

theorem isBlank_of_isAlpha {c : Char} (h : c.isAlpha = true) : isBlank c = false := by
  have hletter := toNat_of_isAlpha h
  have hblank : ¬ isBlank c = true := by
    simp only [isBlank, Bool.or_eq_true, Bool.and_eq_true, decide_eq_true_eq, beq_iff_eq]
    omega
  exact Bool.eq_false_iff.mpr hblank

end Text

end CodeAtlas
