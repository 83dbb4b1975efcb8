import CodeAtlas.Text.WordChar

/-!
# Source text and its tokens

The text of a file as an array of characters, and the tokens that can be recognised at a position
without knowing what surrounds it: gaps, comments, words, numbers, strings, regular expressions.
Every recogniser answers with the position behind the token. Which of them applies at a position
(is `/` a division or the start of a regular expression?) is for the grammar to say.
-/

namespace CodeAtlas.Syntax

/-- The three grammars: plain scripts with markup, typed sources, and typed sources with markup. -/
inductive Dialect where
  | javascript | typescript | tsx
  deriving DecidableEq, Repr

def Dialect.name : Dialect → String
  | .javascript => "javascript"
  | .typescript => "typescript"
  | .tsx => "tsx"

/-- Are type annotations part of the grammar? -/
def Dialect.isTyped (d : Dialect) : Bool := d != .javascript

/-- Is markup part of the grammar? -/
def Dialect.hasMarkup (d : Dialect) : Bool := d != .typescript

structure Source where
  chars : Array Char
  dialect : Dialect

namespace Source

def size (s : Source) : Nat := s.chars.size

/-- The character at a position; a character that no token contains behind the end. -/
def char (s : Source) (i : Nat) : Char := s.chars.getD i '\x00'

def atEnd (s : Source) (i : Nat) : Bool := s.chars.size ≤ i

/-- The text between two positions. -/
def slice (s : Source) (start stop : Nat) : String :=
  String.ofList (s.chars.extract start stop).toList

/-- The first position from `i` on whose character fails the test. -/
def spanWhile (s : Source) (p : Char → Bool) (i : Nat) : Nat :=
  if h : i < s.chars.size then
    if p s.chars[i] then s.spanWhile p (i + 1) else i
  else i
termination_by s.chars.size - i

/-- Does the given text stand at the position? -/
def startsWith (s : Source) (i : Nat) : List Char → Bool
  | [] => true
  | c :: rest => s.chars[i]? == some c && s.startsWith (i + 1) rest

/-! ## Gaps -/

def isLineEnd (c : Char) : Bool := c == '\n' || c == '\r' || c == '\u2028' || c == '\u2029'

/-- Blanks that every scanner skips. -/
def isPlainBlank (c : Char) : Bool := (9 ≤ c.toNat && c.toNat ≤ 13) || c == ' '

/-- Characters that separate tokens. -/
def isGapChar (c : Char) : Bool :=
  let n := c.toNat
  isPlainBlank c || n == 0xA0 || n == 0x1680 || (0x2000 ≤ n && n ≤ 0x200B) || n == 0x2028
    || n == 0x2029 || n == 0x202F || n == 0x205F || n == 0x2060 || n == 0x3000 || n == 0xFEFF

/-- The position behind the next `*/`. -/
def blockCommentEnd? (s : Source) (i : Nat) : Option Nat :=
  if h : i + 1 < s.chars.size then
    if s.chars[i] == '*' && s.chars[i + 1] == '/' then some (i + 2)
    else s.blockCommentEnd? (i + 1)
  else none
termination_by s.chars.size - i

def lineEnd (s : Source) (i : Nat) : Nat := s.spanWhile (fun c ↦ !isLineEnd c) i

/-- The position behind a comment that starts here. -/
def commentEnd? (s : Source) (i : Nat) : Option Nat :=
  if s.char i == '/' then
    if s.char (i + 1) == '/' then some (s.lineEnd (i + 2))
    else if s.char (i + 1) == '*' then s.blockCommentEnd? (i + 2)
    else none
  else none

/-- The position behind a markup comment, which is a comment only where an operand may start. -/
def markupCommentEnd? (s : Source) (i : Nat) : Option Nat :=
  if s.startsWith i ['<', '!', '-', '-'] || s.startsWith i ['-', '-', '>'] then
    some (s.spanWhile (fun c ↦ !(c == '\n' || c == '\u2028' || c == '\u2029')) i)
  else none

/-- Skips gaps and comments; `fuel` bounds their number. -/
def skipFrom (s : Source) (markup : Bool) : Nat → Nat → Nat
  | 0, i => i
  | fuel + 1, i =>
    let i := s.spanWhile isGapChar i
    match s.commentEnd? i with
    | some j => s.skipFrom markup fuel j
    | none =>
      if markup then
        match s.markupCommentEnd? i with
        | some j => s.skipFrom markup fuel j
        | none => i
      else i

/-- The position of the next token. -/
def skip (s : Source) (i : Nat) : Nat :=
  if isGapChar (s.char i) || s.char i == '/' then s.skipFrom false (s.size - i + 1) i else i

/-- The position of the next token where an operand may start. -/
def skipOperand (s : Source) (i : Nat) : Nat := s.skipFrom true (s.size - i + 1) i

/-- Is there a line end between two positions? -/
def hasLineEnd (s : Source) (i j : Nat) : Bool :=
  s.spanWhile (fun c ↦ !isLineEnd c) i < j

/-! ## Words -/

def isHexDigit (c : Char) : Bool :=
  c.isDigit || ('a' ≤ c && c ≤ 'f') || ('A' ≤ c && c ≤ 'F')

/-- Punctuation, quotes and gaps: what ends a word. -/
def endsWord (c : Char) : Bool :=
  c.toNat < 32 || isGapChar c || ":;\x60\"'@#.,|^&<=>+-*/\\%?!~()[]\x7b\x7d".toList.contains c

/-- The position behind a `\u` escape of a word. -/
def wordEscapeEnd? (s : Source) (i : Nat) : Option Nat :=
  if s.char i == '\\' && s.char (i + 1) == 'u' then
    if s.char (i + 2) == '\x7b' then
      let j := s.spanWhile isHexDigit (i + 3)
      if i + 3 < j && s.char j == '\x7d' then some (j + 1) else none
    else
      let j := s.spanWhile isHexDigit (i + 2)
      if i + 6 ≤ j then some (i + 6) else none
  else none

/-- The end of a run of word characters and escapes; `fuel` bounds the number of escapes. -/
def wordRun (s : Source) : Nat → Nat → Nat
  | 0, i => i
  | fuel + 1, i =>
    let i := s.spanWhile (fun c ↦ !endsWord c) i
    match s.wordEscapeEnd? i with
    | some j => s.wordRun fuel j
    | none => i

/-- The position behind a word that starts here. -/
def wordEnd? (s : Source) (i : Nat) : Option Nat :=
  if (s.char i).isDigit then none
  else
    let j := s.wordRun (s.size - i + 1) i
    if i < j then some j else none

/-- The word at a position, empty if there is none. -/
def wordAt (s : Source) (i : Nat) : String :=
  match s.wordEnd? i with
  | some j => s.slice i j
  | none => ""

/-! ## Numbers -/

/-- The end of a run of digits with single underscores between them. -/
def digitRun (s : Source) (p : Char → Bool) : Nat → Nat → Nat
  | 0, i => i
  | fuel + 1, i =>
    let j := s.spanWhile p i
    if i < j && s.char j == '_' && p (s.char (j + 1)) then s.digitRun p fuel (j + 1) else j

def digitsEnd (s : Source) (p : Char → Bool) (i : Nat) : Nat := s.digitRun p (s.size - i + 1) i

/-- The end of an exponent, or the position itself if there is none. -/
def exponentEnd (s : Source) (i : Nat) : Nat :=
  if s.char i == 'e' || s.char i == 'E' then
    let j := if s.char (i + 1) == '+' || s.char (i + 1) == '-' then i + 2 else i + 1
    let k := s.digitsEnd Char.isDigit j
    if j < k then k else i
  else i

/-- The position behind a number that starts here. -/
def numberEnd? (s : Source) (i : Nat) : Option Nat :=
  let withBase (p : Char → Bool) : Option Nat :=
    let j := s.digitsEnd p (i + 2)
    if i + 2 < j then some (if s.char j == 'n' then j + 1 else j) else none
  let second := (s.char (i + 1)).toLower
  if s.char i == '0' && second == 'x' then withBase isHexDigit
  else if s.char i == '0' && second == 'b' then withBase fun c ↦ c == '0' || c == '1'
  else if s.char i == '0' && second == 'o' then withBase fun c ↦ '0' ≤ c && c ≤ '7'
  else if s.char i == '.' then
    let j := s.digitsEnd Char.isDigit (i + 1)
    if i + 1 < j then some (s.exponentEnd j) else none
  else
    let j := s.digitsEnd Char.isDigit i
    if j ≤ i then none
    else if s.char j == 'n' then some (j + 1)
    else if s.char j == '.' then some (s.exponentEnd (s.digitsEnd Char.isDigit (j + 1)))
    else some (s.exponentEnd j)

/-! ## Strings and regular expressions -/

/-- The position behind an escape sequence that starts here. -/
def escapeEnd? (s : Source) (i : Nat) : Option Nat :=
  let c := s.char (i + 1)
  if s.atEnd (i + 1) then none
  else if c == 'x' then
    if isHexDigit (s.char (i + 2)) && isHexDigit (s.char (i + 3)) then some (i + 4) else none
  else if c == 'u' then
    if s.char (i + 2) == '\x7b' then
      let j := s.spanWhile isHexDigit (i + 3)
      if i + 3 < j && s.char j == '\x7d' then some (j + 1) else none
    else if i + 6 ≤ s.spanWhile isHexDigit (i + 2) then some (i + 6)
    else none
  else if '0' ≤ c && c ≤ '7' then
    let j := s.spanWhile (fun c ↦ '0' ≤ c && c ≤ '7') (i + 1)
    some (min j (i + 4))
  else if c == '\r' && isLineEnd (s.char (i + 2)) && s.char (i + 2) != '\r' then some (i + 3)
  else some (i + 2)

/-- The position behind the closing quote of a string; `fuel` bounds the number of escapes. -/
def stringRun (s : Source) (quote : Char) : Nat → Nat → Option Nat
  | 0, _ => none
  | fuel + 1, i =>
    let j := s.spanWhile (fun c ↦ c != quote && c != '\\' && c != '\n' && c != '\r') i
    if s.atEnd j then none
    else if s.char j == quote then some (j + 1)
    else if s.char j == '\\' then
      match s.escapeEnd? j with
      | some k => s.stringRun quote fuel k
      | none => none
    else none

/-- The position behind a string that starts here. -/
def stringEnd? (s : Source) (i : Nat) : Option Nat :=
  if s.char i == '"' || s.char i == '\'' then s.stringRun (s.char i) (s.size - i + 1) (i + 1) else none

/-- The position of the slash that ends a regular expression; a slash inside brackets does not. -/
def regexRun (s : Source) : Nat → Bool → Nat → Option Nat
  | 0, _, _ => none
  | fuel + 1, inBrackets, i =>
    if s.atEnd i then none
    else
      let c := s.char i
      if c == '\n' then none
      else if c == '\\' then
        if s.atEnd (i + 1) || s.char (i + 1) == '\n' then none
        else s.regexRun fuel inBrackets (i + 2)
      else if inBrackets then s.regexRun fuel (c != ']') (i + 1)
      else if c == '/' then some i
      else s.regexRun fuel (c == '[') (i + 1)

/-- The position behind a regular expression that starts here, flags included. -/
def regexEnd? (s : Source) (i : Nat) : Option Nat :=
  match s.regexRun (s.size - i + 1) false (i + 1) with
  | some j =>
    if i + 1 < j then some (s.spanWhile (fun c ↦ 'a' ≤ c && c ≤ 'z') (j + 1)) else none
  | none => none

/-! ## Operators -/

/-- Operators between two operands, longer ones before their beginnings. -/
def binaryOperators : List String :=
  [">>>", "===", "!==", ">>", "<<", "**", "&&", "||", "??", "==", "!=", "<=", ">=", "<", ">", "+",
    "-", "*", "/", "%", "&", "|", "^"]

/-- Operators that assign, longer ones before their beginnings. -/
def assignmentOperators : List String :=
  [">>>=", ">>=", "<<=", "**=", "&&=", "||=", "??=", "+=", "-=", "*=", "/=", "%=", "^=", "&=",
    "|="]

/-- The first listed text that stands at the position. -/
def firstOf (s : Source) (i : Nat) (texts : List String) : Option String :=
  texts.find? fun t ↦ s.startsWith i t.toList

end Source

end CodeAtlas.Syntax
