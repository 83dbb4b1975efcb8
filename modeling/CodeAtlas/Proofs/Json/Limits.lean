import CodeAtlas.Json.Reader
import Mathlib.Data.List.TakeWhile

/-!
# The bounds of the reader

A text is refused for a bound only if it goes past it: the nesting is at most the number of opening
brackets, and an integer has at most as many digits as the text. So a text with few brackets and few
digits is read or is no document (`eq_malformed_of_read`).

Every part of the reader takes a beginning of the text and leaves the end to the next part, so the
counts of the end are bounded by those of the text. Both facts go into one predicate, which is kept
when parts are put together.
-/

namespace CodeAtlas.Json

/-- The brackets that open a list or a map. -/
def isOpening (c : Char) : Bool := c == '[' || c == '\x7b'

/-- The text goes past the bound that it is refused for. -/
def Blames (depth : Nat) (cs : List Char) : ReadError → Prop
  | .malformed => True
  | .tooManyDigits => maxDigits < cs.countP Char.isDigit
  | .tooDeep => depth < cs.countP isOpening

/-- A reader leaves an end of the text, or it blames the text. -/
def Keeps {α : Type} (depth : Nat) (cs : List Char) : Except ReadError (α × List Char) → Prop
  | .ok (_, rest) => rest <:+ cs
  | .error e => Blames depth cs e

variable {α β : Type} {depth : Nat} {cs ds : List Char} {e : ReadError}

theorem Blames.mono (h : Blames depth ds e) (hsuffix : ds <:+ cs) : Blames depth cs e := by
  cases e with
  | malformed => trivial
  | tooManyDigits => exact Nat.lt_of_lt_of_le h hsuffix.sublist.countP_le
  | tooDeep => exact Nat.lt_of_lt_of_le h hsuffix.sublist.countP_le

/-- A bracket stands for one level. -/
theorem Blames.cons (h : Blames depth cs e) {c : Char} (hc : isOpening c = true) :
    Blames (depth + 1) (c :: cs) e := by
  cases e with
  | malformed => trivial
  | tooManyDigits => exact Nat.lt_of_lt_of_le h (List.sublist_cons_self c cs).countP_le
  | tooDeep =>
    rw [Blames, List.countP_cons_of_pos hc]
    exact Nat.succ_lt_succ h

theorem Keeps.mono {x : Except ReadError (α × List Char)} (h : Keeps depth ds x)
    (hsuffix : ds <:+ cs) : Keeps depth cs x := by
  cases x with
  | ok p => exact h.trans hsuffix
  | error e => exact Blames.mono h hsuffix

theorem Keeps.cons {x : Except ReadError (α × List Char)} (h : Keeps depth cs x) {c : Char}
    (hc : isOpening c = true) : Keeps (depth + 1) (c :: cs) x := by
  cases x with
  | ok p => exact h.trans (List.suffix_cons c cs)
  | error e => exact Blames.cons h hc

/-- One reader goes on where another one has stopped. -/
theorem Keeps.bind {x : Except ReadError (α × List Char)}
    {f : α × List Char → Except ReadError (β × List Char)} (hx : Keeps depth cs x)
    (hf : ∀ a rest, rest <:+ cs → Keeps depth cs (f (a, rest))) : Keeps depth cs (x >>= f) := by
  cases x with
  | ok p => exact hf p.1 p.2 hx
  | error e => exact hx

theorem skipGap_suffix (cs : List Char) : skipGap cs <:+ cs := List.dropWhile_suffix isGap

theorem suffix_of_skipGap_eq {c : Char} (h : skipGap cs = c :: ds) : ds <:+ cs :=
  (List.suffix_cons c ds).trans (h ▸ skipGap_suffix cs)

/-! ## Texts -/

theorem keeps_rawText (depth : Nat) (taken cs : List Char) :
    Keeps depth cs (rawText taken cs) := by
  fun_induction rawText taken cs with
  | case1 => trivial
  | case2 taken rest => exact List.suffix_cons _ _
  | case3 taken c rest ih => exact ih.mono ((List.suffix_cons _ _).trans (List.suffix_cons _ _))
  | case4 taken c rest _ _ ih => exact ih.mono (List.suffix_cons _ _)

/-- Escapes break no bound. -/
theorem eq_malformed_of_unescape {fuel : Nat} {taken raw : List Char}
    (h : unescape fuel taken raw = .error e) : e = .malformed := by
  fun_induction unescape fuel taken raw with
  | case1 => exact (Except.error.inj h).symm
  | case2 => exact absurd h (by simp)
  | case3 _ _ _ _ _ _ ih => exact ih h
  | case4 => exact (Except.error.inj h).symm
  | case5 _ _ _ _ _ _ _ ih => exact ih h
  | case6 => exact (Except.error.inj h).symm
  | case7 => exact (Except.error.inj h).symm
  | case8 _ _ _ _ _ _ _ ih => exact ih h

theorem keeps_readText (depth : Nat) (cs : List Char) : Keeps depth cs (readText cs) := by
  refine (keeps_rawText depth [] cs).bind fun raw rest hrest ↦ ?_
  cases hchars : unescape (raw.length + 1) [] raw with
  | ok chars =>
    simp only [hchars]
    exact hrest
  | error e =>
    obtain rfl := eq_malformed_of_unescape hchars
    simp only [hchars]
    trivial

/-! ## Numbers -/

theorem suffix_of_wholePart? {whole rest : List Char} (h : wholePart? cs = some (whole, rest)) :
    rest <:+ cs ∧ whole.length ≤ cs.countP Char.isDigit := by
  revert h
  fun_cases wholePart? cs with
  | case1 tail =>
    intro h
    obtain ⟨rfl, rfl⟩ := Prod.mk.inj (Option.some.inj h)
    refine ⟨List.suffix_cons _ _, ?_⟩
    rw [List.countP_cons_of_pos (by decide)]
    exact Nat.le_add_left 1 _
  | case2 => exact fun h ↦ absurd h (by simp)
  | case3 =>
    intro h
    obtain ⟨rfl, rfl⟩ := Prod.mk.inj (Option.some.inj h)
    refine ⟨List.dropWhile_suffix _, ?_⟩
    rw [← List.countP_eq_length.mpr fun _ ↦ List.mem_takeWhile_imp]
    exact (List.takeWhile_sublist _).countP_le

theorem fractionPart_suffix (cs : List Char) : (fractionPart cs).2 <:+ cs := by
  fun_cases fractionPart cs with
  | case1 rest => exact List.suffix_rfl
  | case2 rest => exact (List.dropWhile_suffix _).trans (List.suffix_cons _ _)
  | case3 => exact List.suffix_rfl

theorem exponentSign_suffix (cs : List Char) : (exponentSign cs).2 <:+ cs := by
  fun_cases exponentSign cs with
  | case1 rest => exact List.suffix_cons _ _
  | case2 rest => exact List.suffix_cons _ _
  | case3 => exact List.suffix_rfl

theorem exponentPart_suffix (cs : List Char) : (exponentPart cs).2 <:+ cs := by
  cases cs with
  | nil => exact List.suffix_rfl
  | cons c rest =>
    have hsign := exponentSign_suffix rest
    rw [exponentPart]
    revert hsign
    generalize exponentSign rest = signed
    obtain ⟨negative, tail⟩ := signed
    intro hsign
    split
    · simp only
      split
      · exact List.suffix_rfl
      · exact ((List.dropWhile_suffix _).trans hsign).trans (List.suffix_cons _ _)
    · exact List.suffix_rfl

theorem keeps_readNumber (depth : Nat) (negative : Bool) (cs : List Char) :
    Keeps depth cs (readNumber negative cs) := by
  rw [readNumber]
  cases hwhole : wholePart? cs with
  | none => trivial
  | some p =>
    obtain ⟨whole, rest⟩ := p
    obtain ⟨hrest, hlength⟩ := suffix_of_wholePart? hwhole
    have htail := ((exponentPart_suffix _).trans (fractionPart_suffix rest)).trans hrest
    simp only
    split
    · split
      · rename_i hmany
        exact Nat.lt_of_lt_of_le hmany hlength
      · exact htail
    · exact htail

/-! ## Values -/

theorem suffix_of_after? {w rest : List Char} (h : after? w cs = some rest) : rest <:+ cs := by
  fun_induction after? w cs with
  | case1 cs =>
    obtain rfl := Option.some.inj h
    exact List.suffix_rfl
  | case2 _ _ _ _ _ ih => exact (ih h).trans (List.suffix_cons _ _)
  | case3 => exact absurd h (by simp)
  | case4 => exact absurd h (by simp)

theorem suffix_of_readName {d : Datum} {rest : List Char} (h : readName cs = some (d, rest)) :
    rest <:+ cs := by
  obtain ⟨⟨name, value⟩, -, hname⟩ := List.exists_of_findSome?_eq_some h
  obtain ⟨tail, hafter, heq⟩ := Option.map_eq_some_iff.mp hname
  obtain ⟨-, rfl⟩ := Prod.mk.inj heq
  exact suffix_of_after? hafter

mutual

/-- **A value is refused for a bound only if the text goes past it.** -/
theorem keeps_readValue (fuel depth : Nat) (cs : List Char) :
    Keeps depth cs (readValue fuel depth cs) := by
  cases fuel with
  | zero => trivial
  | succ fuel =>
    rw [readValue.eq_def]
    simp only
    split
    · rename_i rest
      exact ((keeps_readText depth rest).mono (List.suffix_cons _ _)).bind fun _ _ htail ↦ htail
    · rename_i rest
      cases depth with
      | zero => exact Nat.lt_of_lt_of_eq (Nat.succ_pos _) (List.countP_cons_of_pos rfl).symm
      | succ depth =>
        refine Keeps.cons ?_ rfl
        have hitems := (keeps_readItems fuel depth [] (skipGap rest)).mono (skipGap_suffix rest)
        simp only
        split
        · rename_i heq
          exact suffix_of_skipGap_eq heq
        · exact hitems.bind fun _ _ htail ↦ htail
    · rename_i rest
      cases depth with
      | zero => exact Nat.lt_of_lt_of_eq (Nat.succ_pos _) (List.countP_cons_of_pos rfl).symm
      | succ depth =>
        refine Keeps.cons ?_ rfl
        have hentries := (keeps_readEntries fuel depth [] (skipGap rest)).mono (skipGap_suffix rest)
        simp only
        split
        · rename_i heq
          exact suffix_of_skipGap_eq heq
        · exact hentries.bind fun _ _ htail ↦ htail
    · split
      · rename_i hname
        exact suffix_of_readName hname
      · split
        · exact (keeps_readNumber depth true _).mono (List.suffix_cons _ _)
        · exact keeps_readNumber depth false _

theorem keeps_readItems (fuel depth : Nat) (before : List Datum) (cs : List Char) :
    Keeps depth cs (readItems fuel depth before cs) := by
  cases fuel with
  | zero => trivial
  | succ fuel =>
    rw [readItems]
    refine (keeps_readValue fuel depth cs).bind fun x rest hrest ↦ ?_
    simp only
    split
    · rename_i heq
      exact (suffix_of_skipGap_eq heq).trans hrest
    · rename_i more heq
      have hmore := ((skipGap_suffix more).trans (suffix_of_skipGap_eq heq)).trans hrest
      exact (keeps_readItems fuel depth (x :: before) (skipGap more)).mono hmore
    · trivial

theorem keeps_readEntries (fuel depth : Nat) (before : List (String × Datum)) (cs : List Char) :
    Keeps depth cs (readEntries fuel depth before cs) := by
  cases fuel with
  | zero => trivial
  | succ fuel =>
    rw [readEntries.eq_def]
    simp only
    split
    · rename_i rest
      refine ((keeps_readText depth rest).mono (List.suffix_cons _ _)).bind fun key tail htail ↦ ?_
      simp only
      split
      · rename_i value heq
        have hvalue := ((skipGap_suffix value).trans (suffix_of_skipGap_eq heq)).trans htail
        refine ((keeps_readValue fuel depth (skipGap value)).mono hvalue).bind fun x left hleft ↦ ?_
        simp only
        split
        · rename_i heq
          exact (suffix_of_skipGap_eq heq).trans hleft
        · rename_i more heq
          have hmore := ((skipGap_suffix more).trans (suffix_of_skipGap_eq heq)).trans hleft
          exact (keeps_readEntries fuel depth ((key, x) :: before) (skipGap more)).mono hmore
        · trivial
      · trivial
    · trivial

end

/-- The same for a whole text. -/
theorem blames_of_read {s : String} (h : read s = .error e) : Blames maxDepth s.toList e := by
  rw [read, readList] at h
  have hkeeps := (keeps_readValue (s.toList.length + 1) maxDepth (skipGap s.toList)).mono
    (skipGap_suffix s.toList)
  cases hvalue : readValue (s.toList.length + 1) maxDepth (skipGap s.toList) with
  | error e' =>
    rw [hvalue] at h hkeeps
    obtain rfl := Except.error.inj h
    exact hkeeps
  | ok p =>
    rw [hvalue] at h
    simp only [bind, Except.bind] at h
    split at h
    · exact absurd h (by simp [pure, Except.pure])
    · obtain rfl := Except.error.inj h
      trivial

/-- **A text with few brackets and few digits is read or is no document.** -/
theorem eq_malformed_of_read {s : String} (hdepth : s.toList.countP isOpening ≤ maxDepth)
    (hdigits : s.toList.countP Char.isDigit ≤ maxDigits) (h : read s = .error e) :
    e = .malformed := by
  have hblames := blames_of_read h
  cases e with
  | malformed => rfl
  | tooManyDigits => exact absurd hdigits (Nat.not_le.mpr hblames)
  | tooDeep => exact absurd hdepth (Nat.not_le.mpr hblames)

end CodeAtlas.Json
