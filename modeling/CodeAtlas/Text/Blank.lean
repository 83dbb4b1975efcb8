/-!
# Blank characters

White space in the wide sense: the control characters that separate lines, files and records, the
space, and every space or separator that Unicode adds. Trimming a text and splitting it into words
both go by this set.
-/

namespace CodeAtlas.Text

/-- White space, line and record separators included. -/
def isBlank (c : Char) : Bool :=
  let n := c.toNat
  (9 ≤ n && n ≤ 13) || (28 ≤ n && n ≤ 32) || n == 0x85 || n == 0xA0 || n == 0x1680
    || (0x2000 ≤ n && n ≤ 0x200A) || n == 0x2028 || n == 0x2029 || n == 0x202F || n == 0x205F
    || n == 0x3000

/-! ## Trimming -/

def trimStartList (cs : List Char) : List Char := cs.dropWhile isBlank

def trimEndList (cs : List Char) : List Char := (cs.reverse.dropWhile isBlank).reverse

/-- The characters from the first to the last that is not blank. -/
def trimList (cs : List Char) : List Char := trimEndList (trimStartList cs)

def trim (s : String) : String := String.ofList (trimList s.toList)

def trimStart (s : String) : String := String.ofList (trimStartList s.toList)

def trimEnd (s : String) : String := String.ofList (trimEndList s.toList)

/-- Removes from both ends every character of the given set. -/
def stripChars (p : Char → Bool) (s : String) : String :=
  String.ofList ((s.toList.dropWhile p).reverse.dropWhile p).reverse

/-! ## Words -/

/-- Splits at runs of characters that satisfy `p`; empty pieces are dropped. -/
def splitRuns (p : Char → Bool) : List Char → List Char → List (List Char)
  | word, [] => if word.isEmpty then [] else [word.reverse]
  | word, c :: rest =>
    if p c then
      if word.isEmpty then splitRuns p [] rest else word.reverse :: splitRuns p [] rest
    else splitRuns p (c :: word) rest

/-- The maximal runs of characters that are not blank. -/
def words (s : String) : List String := (splitRuns isBlank [] s.toList).map String.ofList

end CodeAtlas.Text
