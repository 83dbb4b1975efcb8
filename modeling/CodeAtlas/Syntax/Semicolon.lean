import CodeAtlas.Syntax.Source

/-!
# Automatic semicolons

A statement may end without a semicolon where the text goes on in a way that no expression can. The
decision looks only at the characters from a position on. It is tried where the statement's last
token ends and, when it fails there, once more behind each comment that follows.

The plain grammar and the typed ones differ in two points: how they step over a comment on the same
line, and whether an opening bracket on the next line keeps the statement open when what stands
before it is no expression.
-/

namespace CodeAtlas.Syntax.Source

/-- What the position before the semicolon is known to be. -/
structure Ending where
  /-- An expression could go on here. -/
  inExpression : Bool

/-- Where a run of blanks and comments on the same line leads. -/
inductive Passage where
  /-- A slash that starts no comment. -/
  | refused
  /-- A position, and whether the comments passed are a sign that the statement is over. -/
  | reached (position : Nat) (isOver : Bool)

/-- Is the blank known to the semicolon scanner? -/
def isScannerBlank (c : Char) : Bool := isPlainBlank c

/-- Steps over blanks and comments. With `stops`, a block comment not followed at once by a slash
ends the passage. `fuel` bounds the number of comments. -/
def passComments (s : Source) (stops : Bool) : Nat → Bool → Nat → Passage
  | 0, _, _ => .refused
  | fuel + 1, sawLine, i =>
    let i := s.spanWhile isScannerBlank i
    if s.char i == '/' then
      if s.char (i + 1) == '/' then
        s.passComments stops fuel sawLine
          (s.spanWhile (fun c ↦ !(c == '\n' || c == '\u2028' || c == '\u2029')) (i + 2))
      else if s.char (i + 1) == '*' then
        let j := (s.blockCommentEnd? (i + 2)).getD s.size
        let sawLine := sawLine
          || s.spanWhile (fun c ↦ !(c == '\n' || c == '\u2028' || c == '\u2029')) (i + 2) < j
        if stops && s.char j != '/' then .reached j sawLine
        else s.passComments stops fuel sawLine j
      else .refused
    else .reached i true

def isLetter (c : Char) : Bool := c.isAlpha || (127 < c.toNat && Text.isWordChar c)

/-- Can a new line that starts with this text only begin a new statement? -/
def beginsStatement (s : Source) (ending : Ending) (i : Nat) : Bool :=
  let c := s.char i
  if s.atEnd i then true
  else if "\x60,.:;*%><=?^|&/".toList.contains c then false
  else if c == '(' || c == '[' then s.dialect.isTyped && !ending.inExpression
  else if c == '+' || c == '-' then s.char (i + 1) == c
  else if c == '!' then s.char (i + 1) != '='
  else if c == 'i' && s.char (i + 1) == 'n' then
    if s.startsWith (i + 2) "stanceof".toList then isLetter (s.char (i + 10))
    else isLetter (s.char (i + 2))
  else true

/-- One try at a position; `fuel` bounds the number of characters looked at on the line. -/
def semicolonFrom (s : Source) (ending : Ending) : Nat → Nat → Bool
  | 0, _ => false
  | fuel + 1, i =>
    if s.atEnd i then true
    else
      let c := s.char i
      let isTyped := s.dialect.isTyped
      if c == '\x7d' then true
      else if c == '\n' || (!isTyped && (c == '\u2028' || c == '\u2029')) then
        match s.passComments false (s.size - i + 1) false (i + 1) with
        | .refused => false
        | .reached j _ => s.beginsStatement ending j
      else if isScannerBlank c then s.semicolonFrom ending fuel (i + 1)
      else if c == '/' then
        match s.passComments (!isTyped) (s.size - i + 1) false i with
        | .refused => false
        | .reached j isOver =>
          if !isTyped && isOver && !ending.inExpression && s.char j != ',' && s.char j != '=' then true
          else if s.atEnd j then false
          else s.semicolonFrom ending fuel j
      else false

def semicolonAt (s : Source) (ending : Ending) (i : Nat) : Bool :=
  s.semicolonFrom ending (s.size - i + 1) i

/-- The position of an automatic semicolon at or behind a position, with only comments between. -/
def semicolonSearch (s : Source) (ending : Ending) : Nat → Nat → Option Nat
  | 0, _ => none
  | fuel + 1, i =>
    if s.semicolonAt ending i then some i
    else
      match s.commentEnd? (s.spanWhile isGapChar i) with
      | some j => s.semicolonSearch ending fuel j
      | none => none

def semicolon? (s : Source) (ending : Ending) (i : Nat) : Option Nat :=
  s.semicolonSearch ending (s.size - i + 1) i

end CodeAtlas.Syntax.Source
