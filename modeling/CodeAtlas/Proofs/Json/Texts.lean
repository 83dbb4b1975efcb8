import CodeAtlas.Json.Reader
import CodeAtlas.Json.Writer
import Mathlib.Data.List.Basic
import Mathlib.Data.Char

/-!
# Written texts are read back

A text is read in two passes: first its characters as they are written, up to the closing quote, and
then the escapes among them. Both passes go from left to right, so a character can be read back
wherever it stands, and the two equations for it (`rawText_writeChar`, `unescape_writeChar`) carry
over to texts by induction.

A character beyond the basic plane may be written as two escapes. They are read back as one
character because the first one is a high surrogate; no other character is written as a surrogate,
so an escape never takes a part of what follows it.
-/

namespace CodeAtlas.Json

open Text (hexDigits)

/-! ## Digits -/

private theorem hexValue?_digitChar {n : Nat} (h : n < 16) :
    hexValue? (Nat.digitChar n) = some n := by
  have hall : ∀ n < 16, hexValue? (Nat.digitChar n) = some n := by decide
  exact hall n h

private theorem digitChar_isPlain {n : Nat} (h : n < 16) :
    Nat.digitChar n ≠ '"' ∧ Nat.digitChar n ≠ '\\' := by
  have hall : ∀ n < 16, Nat.digitChar n ≠ '"' ∧ Nat.digitChar n ≠ '\\' := by decide
  exact hall n h

/-- The four digits of a unit, the highest one first. -/
private theorem hexDigits_four (n : Nat) : hexDigits 4 n
    = [Nat.digitChar (n / 16 / 16 / 16 % 16), Nat.digitChar (n / 16 / 16 % 16),
        Nat.digitChar (n / 16 % 16), Nat.digitChar (n % 16)] := rfl

theorem hexUnit?_hexDigits {n : Nat} (h : n < 0x10000) (cs : List Char) :
    hexUnit? (hexDigits 4 n ++ cs) = some (n, cs) := by
  have hsum : (((n / 16 / 16 / 16 % 16) * 16 + n / 16 / 16 % 16) * 16 + n / 16 % 16) * 16 + n % 16
      = n := by
    omega
  have hdigit : ∀ m, hexValue? (Nat.digitChar (m % 16)) = some (m % 16) :=
    fun m ↦ hexValue?_digitChar (Nat.mod_lt m (by decide))
  rw [hexDigits_four]
  simp only [List.cons_append, List.nil_append, hexUnit?, hdigit, Option.bind_eq_bind,
    Option.bind_some, Option.pure_def, hsum]

/-! ## Characters as they are written -/

/-- What can be passed over in search of the closing quote. -/
private def Passes (w : List Char) : Prop :=
  ∀ taken cs, rawText taken (w ++ cs) = rawText (w.reverse ++ taken) cs

private theorem passes_nil : Passes [] := fun _ _ ↦ rfl

private theorem Passes.append {v w : List Char} (hv : Passes v) (hw : Passes w) :
    Passes (v ++ w) := by
  intro taken cs
  rw [List.append_assoc, hv, hw, List.reverse_append, List.append_assoc]

private theorem passes_plain {c : Char} (hquote : c ≠ '"') (hslash : c ≠ '\\') : Passes [c] := by
  intro taken cs
  rw [List.singleton_append, rawText.eq_4 _ _ _ hquote fun _ _ h _ ↦ hslash h]
  rfl

/-- A backslash takes the next character along, whatever it is. -/
private theorem passes_escape (e : Char) : Passes ['\\', e] := fun _ _ ↦ rfl

private theorem passes_unicodeEscape (unit : Nat) : Passes (unicodeEscape unit) := by
  have hdigit : ∀ m, Passes [Nat.digitChar (m % 16)] := fun m ↦
    passes_plain (digitChar_isPlain (Nat.mod_lt m (by decide))).1
      (digitChar_isPlain (Nat.mod_lt m (by decide))).2
  have hdigits : Passes (hexDigits 4 unit) :=
    (((hdigit _).append (hdigit _)).append (hdigit _)).append (hdigit _)
  exact (passes_escape 'u').append hdigits

private theorem passes_unitEscapes (c : Char) : Passes (unitEscapes c) := by
  rw [unitEscapes]
  split
  · exact passes_unicodeEscape _
  · exact (passes_unicodeEscape _).append (passes_unicodeEscape _)

/-- The three ways in which a character is written: by an escape of one letter, by its units, or as
it is. -/
private theorem writeChar_cases (ascii : Bool) (c : Char) :
    (∃ e, writeChar ascii c = ['\\', e] ∧ e ≠ 'u' ∧ simpleEscape? e = some c) ∨
      writeChar ascii c = unitEscapes c ∨
      writeChar ascii c = [c] ∧ c ≠ '"' ∧ c ≠ '\\' ∧ ¬ c.toNat < 32 := by
  rw [writeChar]
  by_cases hquote : c = '"'
  · exact Or.inl ⟨'"', by rw [hquote]; rfl, by decide, by rw [hquote]; rfl⟩
  by_cases hslash : c = '\\'
  · exact Or.inl ⟨'\\', by rw [hslash]; rfl, by decide, by rw [hslash]; rfl⟩
  rw [beq_eq_false_iff_ne.mpr hquote, beq_eq_false_iff_ne.mpr hslash, if_neg Bool.false_ne_true,
    if_neg Bool.false_ne_true]
  split
  · rename_i h
    exact Or.inl ⟨'n', rfl, by decide, by rw [eq_of_beq h]; rfl⟩
  split
  · rename_i h
    exact Or.inl ⟨'r', rfl, by decide, by rw [eq_of_beq h]; rfl⟩
  split
  · rename_i h
    exact Or.inl ⟨'t', rfl, by decide, by rw [eq_of_beq h]; rfl⟩
  split
  · rename_i h
    exact Or.inl ⟨'b', rfl, by decide, by rw [eq_of_beq h]; rfl⟩
  split
  · rename_i h
    exact Or.inl ⟨'f', rfl, by decide, by rw [eq_of_beq h]; rfl⟩
  split
  · rename_i hlow
    refine Or.inr (Or.inl ?_)
    rw [unitEscapes]
    exact (if_pos (by omega)).symm
  · rename_i hlow
    split
    · exact Or.inr (Or.inl rfl)
    · exact Or.inr (Or.inr ⟨rfl, hquote, hslash, hlow⟩)

private theorem passes_writeChar (ascii : Bool) (c : Char) : Passes (writeChar ascii c) := by
  rcases writeChar_cases ascii c with ⟨e, hw, -⟩ | hw | ⟨hw, hquote, hslash, -⟩
  · exact hw ▸ passes_escape e
  · exact hw ▸ passes_unitEscapes c
  · exact hw ▸ passes_plain hquote hslash

/-- The search for the closing quote passes over a written text. -/
theorem rawText_writeText (ascii : Bool) (s rest : List Char) :
    rawText [] (s.flatMap (writeChar ascii) ++ '"' :: rest)
      = .ok (s.flatMap (writeChar ascii), rest) := by
  have hpasses : Passes (s.flatMap (writeChar ascii)) := by
    induction s with
    | nil => exact passes_nil
    | cons c s ih => exact (passes_writeChar ascii c).append ih
  rw [hpasses, List.append_nil, rawText, List.reverse_reverse]

/-! ## Escapes -/

private theorem escapedUnit?_of_not_surrogate {unit : Nat} (h : unit < 0x10000)
    (hhigh : ¬ (0xD800 ≤ unit ∧ unit ≤ 0xDBFF)) (hlow : ¬ (0xDC00 ≤ unit ∧ unit ≤ 0xDFFF))
    (cs : List Char) : escapedUnit? (hexDigits 4 unit ++ cs) = some (Char.ofNat unit, cs) := by
  rw [escapedUnit?, hexUnit?_hexDigits h]
  simp only [Bool.and_eq_true, decide_eq_true_eq, if_neg hhigh, if_neg hlow]

/-- A high surrogate takes the low one behind it along. -/
private theorem escapedUnit?_of_pair {high low : Nat} (hhigh : 0xD800 ≤ high ∧ high ≤ 0xDBFF)
    (hlow : 0xDC00 ≤ low ∧ low ≤ 0xDFFF) (cs : List Char) :
    escapedUnit? (hexDigits 4 high ++ (unicodeEscape low ++ cs))
      = some (Char.ofNat (0x10000 + (high - 0xD800) * 0x400 + (low - 0xDC00)), cs) := by
  have hafter : after? ['\\', 'u'] (unicodeEscape low ++ cs) = some (hexDigits 4 low ++ cs) := by
    rw [unicodeEscape, List.cons_append, List.cons_append, after?, after?, after?]
    rfl
  have hhigh' : high < 0x10000 := by omega
  have hlow' : low < 0x10000 := by omega
  rw [escapedUnit?, hexUnit?_hexDigits hhigh']
  simp only [Bool.and_eq_true, decide_eq_true_eq, if_pos hhigh, hafter, Option.bind_some,
    hexUnit?_hexDigits hlow', if_pos hlow]

/-- The units of a character are read back as the character. -/
private theorem escapedUnit?_unitEscapes (c : Char) : ∃ w, unitEscapes c = '\\' :: 'u' :: w ∧
    ∀ cs, escapedUnit? (w ++ cs) = some (c, cs) := by
  have hvalid : c.toNat < 0xD800 ∨ 0xDFFF < c.toNat ∧ c.toNat < 0x110000 := c.valid
  rw [unitEscapes]
  by_cases hplane : c.toNat < 0x10000
  · refine ⟨hexDigits 4 c.toNat, if_pos hplane, fun cs ↦ ?_⟩
    rw [escapedUnit?_of_not_surrogate hplane (by omega) (by omega), Char.ofNat_toNat]
  · -- The character is one of the `0x100000` beyond the plane, so each half fits its range.
    generalize hm : c.toNat - 0x10000 = m
    have hsum : 0x10000 + (0xD800 + m / 0x400 - 0xD800) * 0x400 + (0xDC00 + m % 0x400 - 0xDC00)
        = c.toNat := by
      omega
    refine ⟨hexDigits 4 (0xD800 + m / 0x400) ++ unicodeEscape (0xDC00 + m % 0x400), ?_, fun cs ↦ ?_⟩
    · rw [if_neg (by omega)]
      rfl
    · rw [List.append_assoc, escapedUnit?_of_pair (by omega) (by omega), hsum, Char.ofNat_toNat]

/-- A character takes one step to be read back, however it is written. -/
theorem unescape_writeChar (ascii : Bool) (c : Char) (fuel : Nat) (taken cs : List Char) :
    unescape (fuel + 1) taken (writeChar ascii c ++ cs) = unescape fuel (c :: taken) cs := by
  rcases writeChar_cases ascii c with ⟨e, hw, hu, he⟩ | hw | ⟨hw, -, hslash, hlow⟩
  · rw [hw, List.cons_append, List.singleton_append, unescape.eq_4 _ _ _ _ hu, he]
  · obtain ⟨w, hunits, hread⟩ := escapedUnit?_unitEscapes c
    rw [hw, hunits, List.cons_append, List.cons_append, unescape, hread]
  · rw [hw, List.singleton_append, unescape.eq_5 _ _ _ _ (fun _ h _ ↦ hslash h)
      fun _ _ h _ ↦ hslash h]
    rw [beq_eq_false_iff_ne.mpr hslash, decide_eq_false hlow, Bool.or_false,
      if_neg Bool.false_ne_true]

theorem unescape_writeText (ascii : Bool) {s : List Char} {fuel : Nat} (h : s.length < fuel)
    (taken : List Char) :
    unescape fuel taken (s.flatMap (writeChar ascii)) = .ok (taken.reverse ++ s) := by
  induction s generalizing fuel taken with
  | nil =>
    obtain ⟨fuel, rfl⟩ : ∃ m, fuel = m + 1 := ⟨fuel - 1, by omega⟩
    rw [List.flatMap_nil, unescape, List.append_nil]
  | cons c s ih =>
    rw [List.length_cons] at h
    obtain ⟨fuel, rfl⟩ : ∃ m, fuel = m + 1 := ⟨fuel - 1, by omega⟩
    rw [List.flatMap_cons, unescape_writeChar, ih (by omega), List.reverse_cons,
      List.append_assoc, List.singleton_append]

theorem length_le_length_written (ascii : Bool) (s : List Char) :
    s.length ≤ (s.flatMap (writeChar ascii)).length := by
  induction s with
  | nil => exact Nat.le_refl 0
  | cons c s ih =>
    have hpos : 0 < (writeChar ascii c).length := by
      rcases writeChar_cases ascii c with ⟨e, hw, -⟩ | hw | ⟨hw, -⟩
      · simp [hw]
      · obtain ⟨w, hunits, -⟩ := escapedUnit?_unitEscapes c
        simp [hw, hunits]
      · simp [hw]
    rw [List.flatMap_cons, List.length_append, List.length_cons]
    omega

/-- **A written text is read back**, whichever characters it has and whether or not those beyond
ASCII are escaped. -/
theorem readText_writeText (ascii : Bool) (s : String) (rest : List Char) :
    ∃ w, writeText ascii s = '"' :: w ∧ readText (w ++ rest) = .ok (s, rest) := by
  refine ⟨_, rfl, ?_⟩
  have hfuel := Nat.lt_succ_of_le (length_le_length_written ascii s.toList)
  rw [List.append_assoc, List.singleton_append, readText, rawText_writeText]
  change (unescape _ [] _ >>= fun chars ↦ pure (String.ofList chars, rest)) = _
  rw [unescape_writeText ascii hfuel, List.reverse_nil, List.nil_append]
  exact congrArg (fun t ↦ Except.ok (t, rest)) s.ofList_toList

/-- A quote, a control character, a character of the basic plane and one beyond it. -/
example : (readText ("\"\x01é😀".toList.flatMap (writeChar true) ++ ['"'])).toOption
    = some ("\"\x01é😀", []) := by
  decide +kernel

end CodeAtlas.Json
