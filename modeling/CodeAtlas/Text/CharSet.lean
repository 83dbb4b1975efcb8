/-!
# Sets of characters

A property of characters that Unicode gives as ranges is kept as the ascending list of the code
points where it changes: it starts out false and flips at each of them. So a character has the
property exactly when an odd number of change points is at or below it, and a table needs no
separate starts and ends.
-/

namespace CodeAtlas.Text

/-- A set of characters, given by the code points at which membership changes. -/
structure CharSet where
  changes : Array Nat

/-- Membership is the parity of the change points passed. -/
def CharSet.contains (s : CharSet) (c : Char) : Bool :=
  s.changes.countP (· ≤ c.toNat) % 2 == 1

end CodeAtlas.Text
