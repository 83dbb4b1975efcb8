import CodeAtlas.Decimal.Binary

/-!
# The shortest decimal that reads back

Among the decimals that round to a given float, the ones with the fewest digits are preferred and,
among those, the nearest. They are found grid by grid: on the grid of decimals with `n` digits only
the two neighbours of the exact value can be nearest, so for `n = 1, 2, …, 17` those two are tested
against the interval of numbers that round to the float. The ends of the interval belong to it
exactly when the mantissa is even. Seventeen digits always suffice.
-/

namespace CodeAtlas.Decimal

/-- A decimal `digits * 10 ^ exponent`. -/
structure Scaled where
  digits : Nat
  exponent : Int

/-- The exponent of the leading digit of a positive ratio. -/
def leadingExponent (r : Ratio) : Int :=
  if r.den ≤ r.num then ((toString (r.num / r.den)).length : Int) - 1
  else
    let k := (toString (r.den / r.num)).length
    if r.den ≤ r.num * Nat.pow 10 (k - 1) then -((k : Int) - 1) else -(k : Int)

/-- The two neighbours of a ratio on the grid `10 ^ exponent`, and which of them is nearer. -/
def neighbours (r : Ratio) (exponent : Int) : Nat × Bool :=
  let unit := scaleTen 1 exponent
  let num := r.num * unit.den
  let den := r.den * unit.num
  let below := num / den
  (below, 2 * (num % den) ≤ den)

/-- Tries the grids of `count`, `count + 1`, … digits, with `fuel` bounding their number. -/
def shortestFrom (value low high : Ratio) (inclusive : Bool) (lead : Int) :
    Nat → Nat → Scaled
  | 0, count =>
    let exponent := lead - count + 1
    let (below, nearBelow) := neighbours value exponent
    ⟨if nearBelow then below else below + 1, exponent⟩
  | fuel + 1, count =>
    let exponent := lead - count + 1
    let (below, nearBelow) := neighbours value exponent
    let inside (d : Nat) : Bool :=
      let x := scaleTen d exponent
      if inclusive then low.le x && x.le high else low.lt x && x.lt high
    match inside below, inside (below + 1) with
    | true, true => ⟨if nearBelow then below else below + 1, exponent⟩
    | true, false => ⟨below, exponent⟩
    | false, true => ⟨below + 1, exponent⟩
    | false, false => shortestFrom value low high inclusive lead fuel (count + 1)

/-- The shortest decimal that rounds to the given positive magnitude. -/
def shortest (b : Binary) : Scaled :=
  let value := scaleTwo (4 * b.mantissa) (b.exponent - 2)
  let low := scaleTwo (4 * b.mantissa - if b.atPowerOfTwo then 1 else 2) (b.exponent - 2)
  let high := scaleTwo (4 * b.mantissa + 2) (b.exponent - 2)
  shortestFrom value low high (b.mantissa % 2 == 0) (leadingExponent value) 16 1

/-! ## How a number is written -/

/-- Removes the zeros that end a number of digits. -/
def dropZeros (digits : List Char) : List Char :=
  (digits.reverse.dropWhile (· == '0')).reverse

/-- Digits and the exponent of the leading one, written positionally with at least one decimal. -/
def positional (digits : List Char) (lead : Int) : List Char :=
  if lead < 0 then
    ['0', '.'] ++ List.replicate (-lead - 1).toNat '0' ++ digits
  else
    let whole := lead.toNat + 1
    let padded := digits ++ List.replicate (whole - digits.length) '0'
    let fraction := padded.drop whole
    padded.take whole ++ '.' :: (if fraction.isEmpty then ['0'] else fraction)

/-- Digits with a signed exponent of at least two places. -/
def exponential (digits : List Char) (lead : Int) : List Char :=
  let mantissa := match digits with
    | [] => ['0']
    | [d] => [d]
    | d :: rest => d :: '.' :: rest
  let size := toString lead.natAbs
  mantissa ++ 'e' :: (if lead < 0 then '-' else '+')
    :: (if size.length < 2 then '0' :: size.toList else size.toList)

/-- Magnitudes from `10⁻⁴` up to `10¹⁶` are written positionally, the others with an exponent. -/
def magnitude (b : Binary) : List Char :=
  if b.mantissa == 0 then ['0', '.', '0']
  else
    let s := shortest b
    let all := (toString s.digits).toList
    let lead := s.exponent + all.length - 1
    let digits := dropZeros all
    if -4 ≤ lead && lead < 16 then positional digits lead else exponential digits lead

/-- The names a format gives to the floats that are no numbers. -/
structure Names where
  nan : String
  infinity : String

/-- The shortest text of a float. -/
def text (names : Names) (x : Float) : String :=
  match classify x with
  | .nan => names.nan
  | .infinite negative => if negative then "-" ++ names.infinity else names.infinity
  | .finite b => String.ofList (if b.negative then '-' :: magnitude b else magnitude b)

end CodeAtlas.Decimal
