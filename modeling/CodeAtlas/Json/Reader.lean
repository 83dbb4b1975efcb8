import CodeAtlas.Datum

/-!
# Reading JSON

The reader accepts the documents of the standard and three names that are not in it, `NaN`,
`Infinity` and `-Infinity`. A key that occurs twice keeps its first place and takes its last value.
Two bounds are checked: nesting, and the number of digits of an integer; the two faults are told
apart from a text that is no document, because callers treat them differently.
-/

namespace CodeAtlas.Json

/-- Why a text gives no value. -/
inductive ReadError where
  | malformed
  | tooManyDigits
  | tooDeep
  deriving DecidableEq, Repr

/-- Nesting beyond this many levels is refused. -/
def maxDepth : Nat := 990

/-- Integers with more digits than this are refused. -/
def maxDigits : Nat := 4300

def isGap (c : Char) : Bool := c == ' ' || c == '\t' || c == '\n' || c == '\r'

def skipGap (cs : List Char) : List Char := cs.dropWhile isGap

/-- The text behind a given beginning. -/
def after? : List Char → List Char → Option (List Char)
  | [], cs => some cs
  | w :: ws, c :: cs => if w == c then after? ws cs else none
  | _ :: _, [] => none

/-! ## Texts -/

def hexValue? (c : Char) : Option Nat :=
  if c.isDigit then some (c.toNat - 48)
  else if 'a' ≤ c && c ≤ 'f' then some (c.toNat - 87)
  else if 'A' ≤ c && c ≤ 'F' then some (c.toNat - 55)
  else none

/-- Four hexadecimal digits. -/
def hexUnit? : List Char → Option (Nat × List Char)
  | a :: b :: c :: d :: rest => do
    let a ← hexValue? a
    let b ← hexValue? b
    let c ← hexValue? c
    let d ← hexValue? d
    pure (((a * 16 + b) * 16 + c) * 16 + d, rest)
  | _ => none

/-- The character of a `\u` escape. Two escapes that form a surrogate pair are one character; a
surrogate on its own is no character and is replaced. -/
def escapedUnit? (cs : List Char) : Option (Char × List Char) :=
  match hexUnit? cs with
  | none => none
  | some (unit, rest) =>
    if 0xD800 ≤ unit && unit ≤ 0xDBFF then
      match (after? ['\\', 'u'] rest).bind hexUnit? with
      | some (low, rest') =>
        if 0xDC00 ≤ low && low ≤ 0xDFFF then
          some (Char.ofNat (0x10000 + (unit - 0xD800) * 0x400 + (low - 0xDC00)), rest')
        else some ('\uFFFD', rest)
      | none => some ('\uFFFD', rest)
    else if 0xDC00 ≤ unit && unit ≤ 0xDFFF then some ('\uFFFD', rest)
    else some (Char.ofNat unit, rest)

/-- The character of a one-letter escape. -/
def simpleEscape? : Char → Option Char
  | '"' => some '"'
  | '\\' => some '\\'
  | '/' => some '/'
  | 'b' => some '\x08'
  | 'f' => some '\x0c'
  | 'n' => some '\n'
  | 'r' => some '\r'
  | 't' => some '\t'
  | _ => none

/-- The text as written up to the closing quote, put in front of `taken` in reverse. -/
def rawText (taken : List Char) : List Char → Except ReadError (List Char × List Char)
  | [] => .error .malformed
  | '"' :: rest => .ok (taken.reverse, rest)
  | '\\' :: c :: rest => rawText (c :: '\\' :: taken) rest
  | c :: rest => rawText (c :: taken) rest

/-- Replaces escapes; `fuel` bounds the number of characters. -/
def unescape : Nat → List Char → List Char → Except ReadError (List Char)
  | 0, _, _ => .error .malformed
  | _ + 1, taken, [] => .ok taken.reverse
  | fuel + 1, taken, '\\' :: 'u' :: rest =>
    match escapedUnit? rest with
    | some (u, rest) => unescape fuel (u :: taken) rest
    | none => .error .malformed
  | fuel + 1, taken, '\\' :: e :: rest =>
    match simpleEscape? e with
    | some u => unescape fuel (u :: taken) rest
    | none => .error .malformed
  | fuel + 1, taken, c :: rest =>
    if c == '\\' || c.toNat < 32 then .error .malformed else unescape fuel (c :: taken) rest

/-- A text whose opening quote has been read. -/
def readText (cs : List Char) : Except ReadError (String × List Char) := do
  let (raw, rest) ← rawText [] cs
  let chars ← unescape (raw.length + 1) [] raw
  pure (String.ofList chars, rest)

/-! ## Numbers -/

/-- The value of a run of digits. -/
def digitsValue (ds : List Char) : Nat := ds.foldl (fun n d ↦ 10 * n + (d.toNat - 48)) 0

/-- The digits of an integer: a zero on its own, or digits that do not start with one. -/
def wholePart? : List Char → Option (List Char × List Char)
  | '0' :: rest => some (['0'], rest)
  | cs =>
    match cs.takeWhile Char.isDigit with
    | [] => none
    | ds => some (ds, cs.dropWhile Char.isDigit)

/-- A point with at least one digit behind it, or nothing. -/
def fractionPart (cs : List Char) : Option (List Char) × List Char :=
  match cs with
  | '.' :: rest =>
    match rest.takeWhile Char.isDigit with
    | [] => (none, cs)
    | ds => (some ds, rest.dropWhile Char.isDigit)
  | _ => (none, cs)

/-- The sign of an exponent. -/
def exponentSign : List Char → Bool × List Char
  | '-' :: rest => (true, rest)
  | '+' :: rest => (false, rest)
  | cs => (false, cs)

/-- An `e` with an integer behind it, or nothing. -/
def exponentPart (cs : List Char) : Option Int × List Char :=
  match cs with
  | c :: rest =>
    if c == 'e' || c == 'E' then
      let (negative, tail) := exponentSign rest
      match tail.takeWhile Char.isDigit with
      | [] => (none, cs)
      | ds =>
        let n : Int := digitsValue ds
        (some (if negative then -n else n), tail.dropWhile Char.isDigit)
    else (none, cs)
  | [] => (none, cs)

/-- The float nearest to `digits * 10 ^ exponent`. Exponents beyond any float are cut off first. -/
def nearestFloat (negative : Bool) (digits : Nat) (exponent : Int) : Float :=
  let size := (toString digits).length
  let x :=
    if digits == 0 || exponent + size < -400 then 0.0
    else if 400 < exponent + size then 1.0 / 0.0
    else if 0 ≤ exponent then Float.ofScientific digits false exponent.toNat
    else Float.ofScientific digits true (-exponent).toNat
  if negative then -x else x

/-- A number: an integer unless it has a fraction or an exponent. -/
def readNumber (negative : Bool) (cs : List Char) : Except ReadError (Datum × List Char) :=
  match wholePart? cs with
  | none => .error .malformed
  | some (whole, rest) =>
    let (fraction, rest) := fractionPart rest
    let (exponent, rest) := exponentPart rest
    if fraction.isNone && exponent.isNone then
      if maxDigits < whole.length then .error .tooManyDigits
      else
        let n : Int := digitsValue whole
        .ok (.int (if negative then -n else n), rest)
    else
      let places := fraction.getD []
      .ok (.float (nearestFloat negative (digitsValue (whole ++ places))
        (exponent.getD 0 - places.length)), rest)

/-! ## Values -/

/-- The literal names and what they stand for. -/
def names : List (String × Datum) :=
  [("null", .null), ("true", .bool true), ("false", .bool false), ("NaN", .float (0.0 / 0.0)),
    ("Infinity", .float (1.0 / 0.0)), ("-Infinity", .float (-1.0 / 0.0))]

def readName (cs : List Char) : Option (Datum × List Char) :=
  names.findSome? fun (name, value) ↦ (after? name.toList cs).map (value, ·)

mutual

/-- A value that starts here. `fuel` bounds the number of calls, `depth` the levels still allowed. -/
def readValue : Nat → Nat → List Char → Except ReadError (Datum × List Char)
  | 0, _, _ => .error .malformed
  | fuel + 1, depth, cs =>
    match cs with
    | '"' :: rest => do
      let (s, tail) ← readText rest
      pure (.text s, tail)
    | '[' :: rest =>
      match depth with
      | 0 => .error .tooDeep
      | depth + 1 =>
        match skipGap rest with
        | ']' :: tail => .ok (.list [], tail)
        | items => do
          let (xs, tail) ← readItems fuel depth [] items
          pure (.list xs, tail)
    | '\x7b' :: rest =>
      match depth with
      | 0 => .error .tooDeep
      | depth + 1 =>
        match skipGap rest with
        | '\x7d' :: tail => .ok (.map [], tail)
        | entries => do
          let (es, tail) ← readEntries fuel depth [] entries
          pure (.map (Props.ofList es), tail)
    | _ =>
      match readName cs with
      | some found => .ok found
      | none =>
        match cs with
        | '-' :: rest => readNumber true rest
        | _ => readNumber false cs

/-- The items up to the closing bracket, at least one, behind those already read in reverse. -/
def readItems : Nat → Nat → List Datum → List Char → Except ReadError (List Datum × List Char)
  | 0, _, _, _ => .error .malformed
  | fuel + 1, depth, before, cs => do
    let (x, rest) ← readValue fuel depth cs
    match skipGap rest with
    | ']' :: tail => pure ((x :: before).reverse, tail)
    | ',' :: more => readItems fuel depth (x :: before) (skipGap more)
    | _ => .error .malformed

/-- The entries up to the closing brace, at least one, behind those already read in reverse. -/
def readEntries : Nat → Nat → List (String × Datum) → List Char →
    Except ReadError (List (String × Datum) × List Char)
  | 0, _, _, _ => .error .malformed
  | fuel + 1, depth, before, cs =>
    match cs with
    | '"' :: rest => do
      let (key, rest) ← readText rest
      match skipGap rest with
      | ':' :: rest => do
        let (x, rest) ← readValue fuel depth (skipGap rest)
        match skipGap rest with
        | '\x7d' :: tail => pure (((key, x) :: before).reverse, tail)
        | ',' :: more => readEntries fuel depth ((key, x) :: before) (skipGap more)
        | _ => .error .malformed
      | _ => .error .malformed
    | _ => .error .malformed

end

/-- The value that a whole text writes, white space around it allowed. -/
def readList (cs : List Char) : Except ReadError Datum := do
  let (x, rest) ← readValue (cs.length + 1) maxDepth (skipGap cs)
  if (skipGap rest).isEmpty then pure x else .error .malformed

def read (s : String) : Except ReadError Datum := readList s.toList

end CodeAtlas.Json
