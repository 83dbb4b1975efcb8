import CodeAtlas.Text.Utf8

/-!
# Parts of a URL

A URL has a path and, behind a question mark, parameters. In both a percent sign and two hexadecimal
digits stand for a byte; in a parameter a plus sign stands for a space.
-/

namespace CodeAtlas.Text.Url

def hexDigit? (c : Char) : Option Nat :=
  if c.isDigit then some (c.toNat - 48)
  else if 'a' ≤ c && c ≤ 'f' then some (c.toNat - 87)
  else if 'A' ≤ c && c ≤ 'F' then some (c.toNat - 55)
  else none

/-- The bytes that a text stands for. A percent sign without two digits stands for itself. -/
def bytes : List Char → List UInt8
  | [] => []
  | '%' :: a :: b :: rest =>
    match hexDigit? a, hexDigit? b with
    | some x, some y => UInt8.ofNat (16 * x + y) :: bytes rest
    | _, _ => '%'.toNat.toUInt8 :: bytes (a :: b :: rest)
  | c :: rest => (String.singleton c).toUTF8.toList ++ bytes rest

def decode (cs : List Char) : String := String.ofList (decodeReplacing (bytes cs))

/-- Decodes a name or a value of a parameter. -/
def decodeParameter (cs : List Char) : String :=
  decode (cs.map fun c ↦ if c == '+' then ' ' else c)

/-- The pieces between two occurrences of a mark. -/
def splitAtMark (mark : Char) : List Char → List (List Char)
  | [] => [[]]
  | c :: rest =>
    if c == mark then [] :: splitAtMark mark rest
    else
      match splitAtMark mark rest with
      | [] => [[c]]
      | p :: ps => (c :: p) :: ps

/-- A name and its value; without an equals sign the value is empty. -/
def parameter (cs : List Char) : String × String :=
  let name := cs.takeWhile (· != '=')
  (decodeParameter name, decodeParameter (cs.drop (name.length + 1)))

/-- The parameters of a URL in order. -/
def parameters (url : String) : List (String × String) :=
  let query := (url.toList.takeWhile (· != '#')).dropWhile (· != '?')
  ((splitAtMark '&' (query.drop 1)).filter fun cs ↦ !cs.isEmpty).map parameter

/-- The last value of a parameter. -/
def parameter? (name url : String) : Option String :=
  ((parameters url).reverse.find? fun p ↦ p.1 == name).map (·.2)

def path (url : String) : String :=
  decode (url.toList.takeWhile fun c ↦ c != '?' && c != '#')

end CodeAtlas.Text.Url
