import CodeAtlas.Text.Blank
import CodeAtlas.Text.LowerCase
import CodeAtlas.Text.WordChar

/-!
# Tokens of a text

The words that relevance is measured by: in small letters, without punctuation, with the parts of a
camel-case name taken apart. Words of one character say too little and are left out.
-/

namespace CodeAtlas.Search

def isSmallOrDigit (c : Char) : Bool := ('a' ≤ c && c ≤ 'z') || ('0' ≤ c && c ≤ '9')

def isCapital (c : Char) : Bool := 'A' ≤ c && c ≤ 'Z'

/-- Puts a blank between a small letter or a digit and a capital behind it. -/
def splitCamel : List Char → List Char
  | c :: d :: rest =>
    if isSmallOrDigit c && isCapital d then c :: ' ' :: splitCamel (d :: rest)
    else c :: splitCamel (d :: rest)
  | cs => cs

/-- Punctuation and blanks, which separate tokens. -/
def separates (c : Char) : Bool := Text.isBlank c || !Text.isWordChar c

def tokenList (cs : List Char) : List (List Char) :=
  (Text.splitRuns separates [] (Text.lowerList (splitCamel cs))).filter fun w ↦ 1 < w.length

def tokens (text : String) : List String := (tokenList text.toList).map String.ofList

end CodeAtlas.Search
