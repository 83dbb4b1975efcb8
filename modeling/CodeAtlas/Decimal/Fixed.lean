import CodeAtlas.Decimal.Binary

/-!
# A fixed number of decimal places

The exact value is rounded once, to the nearest multiple of the last place; a half goes to the even
neighbour.
-/

namespace CodeAtlas.Decimal

/-- The quotient to the nearest integer, halves to even. -/
def roundDiv (num den : Nat) : Nat :=
  let q := num / den
  let r := num % den
  if 2 * r < den then q
  else if den < 2 * r then q + 1
  else if q % 2 == 0 then q else q + 1

/-- A finite magnitude with the given number of places. -/
def fixedDigits (places : Nat) (b : Binary) : String :=
  let r := scaleTwo b.mantissa b.exponent
  let scaled := toString (roundDiv (r.num * Nat.pow 10 places) r.den)
  let padded := List.replicate (places + 1 - scaled.length) '0' ++ scaled.toList
  let whole := padded.length - places
  if places == 0 then String.ofList padded
  else String.ofList (padded.take whole ++ '.' :: padded.drop whole)

end CodeAtlas.Decimal
