import CodeAtlas.Text.LowerCase

/-!
# Letters alike but for case

Two characters are alike if they have the same small letter. A few small letters are forms of one
letter, because they share a capital, and count as alike too.
-/

namespace CodeAtlas.Text

/-- The small letter of a character, as one character. -/
def smallLetter (c : Char) : Char := if c == 'İ' then 'i' else lowerChar c

/-- Small letters that are forms of one letter. -/
def letterForms : List (List Nat) :=
  [[0x69, 0x131], [0x73, 0x17f], [0xb5, 0x3bc], [0x345, 0x3b9, 0x1fbe], [0x390, 0x1fd3],
    [0x3b0, 0x1fe3], [0x3b2, 0x3d0], [0x3b5, 0x3f5], [0x3b8, 0x3d1], [0x3ba, 0x3f0],
    [0x3c0, 0x3d6], [0x3c1, 0x3f1], [0x3c2, 0x3c3], [0x3c6, 0x3d5], [0x432, 0x1c80],
    [0x434, 0x1c81], [0x43e, 0x1c82], [0x441, 0x1c83], [0x442, 0x1c84, 0x1c85],
    [0x44a, 0x1c86], [0x463, 0x1c87], [0x1c88, 0xa64b], [0x1e61, 0x1e9b], [0xfb05, 0xfb06]]

/-- The small letter of a character and the other forms of it. -/
def smallForms (c : Char) : List Nat :=
  let n := (smallLetter c).toNat
  (letterForms.find? fun forms ↦ forms.contains n).getD [n]

/-- The characters that have the small letter `n`, itself left out. -/
def capitals (n : Nat) : List Nat :=
  let mapped := lowerRuns.toList.filterMap fun (first, last, step, distance) ↦
    let m := (n : Int) - distance
    if first ≤ m && m ≤ last && (m - first) % step == 0 then some m.toNat else none
  if n == 0x69 then 0x130 :: mapped else mapped

example : capitals 0x6b = [0x4b, 0x212a] ∧ smallForms 'S' = [0x73, 0x17f] := by decide +kernel

end CodeAtlas.Text
