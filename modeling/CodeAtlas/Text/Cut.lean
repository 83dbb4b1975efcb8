/-!
# Beginnings

The first part of a text or a list, of a given length. A negative length is counted from the end:
that many are left out.
-/

namespace CodeAtlas.Text

/-- The first `n` items; a negative number leaves out that many at the end. -/
def beginning {α : Type} (n : Int) (xs : List α) : List α :=
  xs.take (if 0 ≤ n then n.toNat else xs.length - (-n).toNat)

/-- The first `n` characters; a negative number leaves out that many at the end. -/
def cut (n : Int) (s : String) : String := String.ofList (beginning n s.toList)

end CodeAtlas.Text
