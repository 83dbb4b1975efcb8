/-!
# Finite floats as exact numbers

A finite double is an integer times a power of two. All decimal output starts from that exact
value, in integer arithmetic, so that no step of printing rounds twice.
-/

namespace CodeAtlas.Decimal

/-- The exact magnitude `mantissa * 2 ^ exponent` of a finite float, with its sign. -/
structure Binary where
  negative : Bool
  mantissa : Nat
  exponent : Int
  /-- Is the float below at half the distance of the float above? -/
  atPowerOfTwo : Bool

/-- What a float holds. -/
inductive Class where
  | nan
  | infinite (negative : Bool)
  | finite (value : Binary)

/-- Reads the sign, exponent and fraction fields of the bit pattern. -/
def classify (x : Float) : Class :=
  let bits := x.toBits.toNat
  let negative := bits / Nat.pow 2 63 == 1
  let exponent : Nat := bits / Nat.pow 2 52 % Nat.pow 2 11
  let fraction : Nat := bits % Nat.pow 2 52
  if exponent == 2047 then
    if fraction == 0 then .infinite negative else .nan
  else if exponent == 0 then
    .finite { negative, mantissa := fraction, exponent := -1074, atPowerOfTwo := false }
  else
    .finite
      { negative, mantissa := fraction + Nat.pow 2 52, exponent := (exponent : Int) - 1075,
        atPowerOfTwo := fraction == 0 && exponent != 1 }

/-- A non-negative rational, kept as it comes. -/
structure Ratio where
  num : Nat
  den : Nat

/-- `n * 2 ^ e` as a ratio. -/
def scaleTwo (n : Nat) (e : Int) : Ratio :=
  if 0 ≤ e then ⟨n * Nat.pow 2 e.toNat, 1⟩ else ⟨n, Nat.pow 2 (-e).toNat⟩

/-- `n * 10 ^ e` as a ratio. -/
def scaleTen (n : Nat) (e : Int) : Ratio :=
  if 0 ≤ e then ⟨n * Nat.pow 10 e.toNat, 1⟩ else ⟨n, Nat.pow 10 (-e).toNat⟩

def Ratio.le (a b : Ratio) : Bool := a.num * b.den ≤ b.num * a.den

def Ratio.lt (a b : Ratio) : Bool := a.num * b.den < b.num * a.den

/-- The integer a float equals, if it is one. -/
def toInt? (x : Float) : Option Int :=
  match classify x with
  | .finite b =>
    let r := scaleTwo b.mantissa b.exponent
    if r.num % r.den == 0 then
      let n : Int := (r.num / r.den : Nat)
      some (if b.negative then -n else n)
    else none
  | _ => none

/-- The largest integer at or below a finite float; zero for the others. -/
def truncate (x : Float) : Int :=
  match classify x with
  | .finite b =>
    let r := scaleTwo b.mantissa b.exponent
    let n : Int := (r.num / r.den : Nat)
    if b.negative then -n else n
  | _ => 0

end CodeAtlas.Decimal
