import CodeAtlas.Fault
import CodeAtlas.Pattern.Regex
import CodeAtlas.Text.Blank
import CodeAtlas.Text.CaseFold
import CodeAtlas.Text.DecimalDigit
import CodeAtlas.Text.WordChar

/-!
# Reading regular expressions

The notation: characters for themselves, `.`, classes in brackets, groups with and without names,
alternatives, repetition with `*`, `+`, `?` and counts in braces, anchors, escapes for characters
and for classes of them, conditions ahead and behind, groups matched once more, and letters that say
how a part is understood. A pattern that is not well formed is refused with the reason.

A pattern is first cut into signs, so that a character behind a backslash is never taken for a sign
of the notation. The reader then goes from sign to sign, with the groups it has met at hand.
-/

namespace CodeAtlas.Pattern

/-- A sign of a pattern: a character, or a character behind a backslash. -/
inductive Sign where
  | plain (c : Char)
  | escaped (c : Char)
  deriving DecidableEq, Repr

def Sign.text : Sign → List Char
  | plain c => [c]
  | escaped c => ['\\', c]

/-- How letters, points and anchors are understood. -/
structure RegexFlags where
  ignoreCase : Bool
  dotAll : Bool
  multiline : Bool
  /-- Blanks and remarks in the pattern say nothing. -/
  verbose : Bool
  /-- Classes hold characters below 128 only. -/
  ascii : Bool
  /-- Is it asked for that classes hold characters of all scripts? -/
  allScripts : Bool

namespace RegexFlags

def none : RegexFlags := ⟨false, false, false, false, false, false⟩

/-- The flags with those of some letters set, those of others cleared. -/
def change (flags : RegexFlags) (set cleared : List Char) : RegexFlags where
  ignoreCase := (flags.ignoreCase || set.contains 'i') && !cleared.contains 'i'
  dotAll := (flags.dotAll || set.contains 's') && !cleared.contains 's'
  multiline := (flags.multiline || set.contains 'm') && !cleared.contains 'm'
  verbose := (flags.verbose || set.contains 'x') && !cleared.contains 'x'
  ascii := (flags.ascii && !set.contains 'u') || set.contains 'a'
  allScripts := (flags.allScripts && !set.contains 'a') || set.contains 'u'

/-- The flags of the whole pattern; there they add up. -/
def add (flags : RegexFlags) (set : List Char) : RegexFlags :=
  { flags.change set [] with
    ascii := flags.ascii || set.contains 'a', allScripts := flags.allScripts || set.contains 'u' }

end RegexFlags

/-- The groups that have been met. -/
structure Groups where
  opened : Nat
  /-- The groups that have ended, with their widths. -/
  closed : List (Nat × Regex.Width)
  names : List (String × Nat)
  /-- Inside a condition behind, the number of groups opened before it. -/
  behind : Option Nat
  /-- The groups that conditions ask about. -/
  asked : List Nat

namespace RegexReader

/-- What is still to be read, and the groups. -/
structure Progress where
  rest : List Sign
  groups : Groups

abbrev Reading := StateT Progress (Except Mismatch)

def refuse {α : Type} (why : String) : Reading α := throw (.badPattern why)

/-- Cuts a pattern into signs. -/
def signs : List Char → Except Mismatch (List Sign)
  | [] => .ok []
  | ['\\'] => .error (.badPattern "bad escape (end of pattern)")
  | '\\' :: c :: rest => (signs rest).map (.escaped c :: ·)
  | c :: rest => (signs rest).map (.plain c :: ·)

/-! ## Signs -/

def peek : Reading (Option Sign) := do pure (← get).rest.head?

def take : Reading (Option Sign) := modifyGet fun s ↦ (s.rest.head?, { s with rest := s.rest.tail })

/-- Reads the sign if it comes next. -/
def accept (c : Char) : Reading Bool := do
  if (← peek) == some (.plain c) then
    discard take
    pure true
  else pure false

def expect (c : Char) (why : String) : Reading Unit := do
  if !(← accept c) then refuse why

/-- The plain characters with a property at the front. -/
def plainRun (p : Char → Bool) : List Sign → List Char
  | .plain c :: rest => if p c then c :: plainRun p rest else []
  | _ => []

/-- Reads the characters with a property that come next, but at most `most`. -/
def takeRun (p : Char → Bool) (most : Nat) : Reading (List Char) :=
  modifyGet fun s ↦
    let run := (plainRun p s.rest).take most
    (run, { s with rest := s.rest.drop run.length })

/-- Reads all characters with a property that come next. -/
def takeAll (p : Char → Bool) : Reading (List Char) := do takeRun p (← get).rest.length

/-- Reads up to a closing sign, which is read too. There has to be something before it. -/
def takeName (close : Char) : Reading (List Char) := do
  let s ← get
  let name := s.rest.takeWhile (· != .plain close)
  if name.isEmpty then refuse "missing group name"
  else if name.length == s.rest.length then refuse "unterminated name"
  else
    set { s with rest := s.rest.drop (name.length + 1) }
    pure (name.flatMap Sign.text)

/-! ## Characters -/

def isOctal (c : Char) : Bool := '0' ≤ c && c ≤ '7'

def isHex (c : Char) : Bool := c.isDigit || ('a' ≤ c.toLower && c.toLower ≤ 'f')

def digitValue (c : Char) : Nat :=
  if c.isDigit then c.toNat - 48 else c.toLower.toNat - 87

def numeral (base : Nat) (cs : List Char) : Nat :=
  cs.foldl (fun n c ↦ base * n + digitValue c) 0

/-- The characters that a letter behind a backslash stands for. -/
def controlEscape? : Char → Option Char
  | 'n' => some '\n'
  | 'r' => some '\r'
  | 't' => some '\t'
  | 'a' => some '\x07'
  | 'f' => some '\x0c'
  | 'v' => some '\x0b'
  | _ => none

/-- A code point given by a number of hexadecimal digits. -/
def hexEscape (width : Nat) : Reading Nat := do
  let digits ← takeRun isHex width
  let n := numeral 16 digits
  if digits.length < width then refuse "incomplete escape"
  else if 0x10ffff < n then refuse "bad escape"
  else pure n

/-- The code point of an escape that stands for one character and does not start with a digit. -/
def charEscape (c : Char) : Reading Nat :=
  match c, controlEscape? c with
  | 'x', _ => hexEscape 2
  | 'u', _ => hexEscape 4
  | 'U', _ => hexEscape 8
  | _, some d => pure d.toNat
  | c, none => if c.isAlphanum then refuse "bad escape" else pure c.toNat

def octal (digits : List Char) : Reading Nat :=
  let n := numeral 8 digits
  if 0xff < n then refuse "octal escape value outside of range" else pure n

/-! ## Classes -/

/-- What a class is made of. -/
inductive ClassItem where
  | range (low high : Nat)
  | among (p : Char → Bool)

def isDecimal (flags : RegexFlags) (c : Char) : Bool :=
  if flags.ascii then c.isDigit else (Text.digitValue? c).isSome

def isWord (flags : RegexFlags) (c : Char) : Bool :=
  if flags.ascii then c.isAlphanum || c == '_' else Text.isWordChar c

def isSpace (flags : RegexFlags) (c : Char) : Bool :=
  if flags.ascii then [' ', '\t', '\n', '\r', '\x0c', '\x0b'].contains c else Text.isBlank c

/-- The classes that a letter behind a backslash stands for. -/
def classEscape? (flags : RegexFlags) : Char → Option (Char → Bool)
  | 'd' => some (isDecimal flags)
  | 'D' => some fun c ↦ !isDecimal flags c
  | 'w' => some (isWord flags)
  | 'W' => some fun c ↦ !isWord flags c
  | 's' => some (isSpace flags)
  | 'S' => some fun c ↦ !isSpace flags c
  | _ => none

/-- What characters are compared by. -/
def caseKey (flags : RegexFlags) (c : Char) : Char :=
  if !flags.ignoreCase then c else if flags.ascii then c.toLower else Text.smallLetter c

/-- The characters that count as the same one where case is ignored. -/
def alike (flags : RegexFlags) (c : Char) : List Nat :=
  if flags.ascii then
    let n := c.toLower.toNat
    if c.isAlpha then [n, n - 32] else [n]
  else (Text.smallForms c).flatMap fun n ↦ n :: Text.capitals n

def ClassItem.holds (flags : RegexFlags) (c : Char) : ClassItem → Bool
  | range low high =>
    if flags.ignoreCase then (alike flags c).any fun n ↦ low ≤ n && n ≤ high
    else low ≤ c.toNat && c.toNat ≤ high
  | among p => p (caseKey flags c)

/-- One character with the given code point. -/
def literal (flags : RegexFlags) (n : Nat) : Regex :=
  .set fun c ↦ (ClassItem.range n n).holds flags c

/-- One end of a range, or a class given by an escape. -/
def classItem (flags : RegexFlags) : Sign → Reading ClassItem
  | .plain c => pure (.range c.toNat c.toNat)
  | .escaped c =>
    match classEscape? flags c with
    | some p => pure (.among p)
    | none => do
      let n ← if c == 'b' then pure 8
        else if isOctal c then octal (c :: (← takeRun isOctal 2))
        else charEscape c
      pure (.range n n)

/-- A range of characters. -/
def rangeOf : ClassItem → ClassItem → Reading ClassItem
  | .range low _, .range high _ =>
    if high < low then refuse "bad character range" else pure (.range low high)
  | _, _ => refuse "bad character range"

/-- The items of a class up to its closing bracket; the first item may be a closing bracket. -/
def classItems (flags : RegexFlags) : Nat → List ClassItem → Reading (List ClassItem)
  | 0, _ => refuse "unterminated character set"
  | fuel + 1, items => do
    match ← take with
    | none => refuse "unterminated character set"
    | some sign =>
      if sign == .plain ']' && !items.isEmpty then pure items
      else
        let low ← classItem flags sign
        if ← accept '-' then
          match ← take with
          | none => refuse "unterminated character set"
          | some (.plain ']') => pure (.range 45 45 :: low :: items)
          | some sign => do
            let high ← classItem flags sign
            classItems flags fuel ((← rangeOf low high) :: items)
        else classItems flags fuel (low :: items)

/-- A class; the opening bracket has been read. -/
def charClass (flags : RegexFlags) : Reading Regex := do
  let isNegated ← accept '^'
  let items ← classItems flags ((← get).rest.length + 1) []
  pure (.set fun c ↦ (items.any fun item ↦ item.holds flags c) != isNegated)

/-! ## Groups -/

/-- Opens a group and gives its number. -/
def openGroup (name? : Option String) : Reading Nat := do
  let groups := (← get).groups
  let number := groups.opened + 1
  let names ← match name? with
    | none => pure groups.names
    | some name =>
      if groups.names.any fun n ↦ n.1 == name then refuse "redefinition of group name"
      else pure ((name, number) :: groups.names)
  modify fun s ↦ { s with groups := { groups with opened := number, names } }
  pure number

def widthOf (groups : Groups) (number : Nat) : Regex.Width :=
  match groups.closed.find? fun g ↦ g.1 == number with
  | some (_, w) => w
  | none => .none

def closeGroup (number : Nat) (r : Regex) : Reading Unit :=
  modify fun s ↦
    let closed := (number, r.width (widthOf s.groups)) :: s.groups.closed
    { s with groups := { s.groups with closed } }

def isClosed (groups : Groups) (number : Nat) : Bool :=
  groups.closed.any fun g ↦ g.1 == number

/-- Inside a condition behind, only groups before it may be spoken of. -/
def checkBehind (number : Nat) : Reading Unit := do
  let groups := (← get).groups
  match groups.behind with
  | none => pure ()
  | some opened =>
    if !isClosed groups number then refuse "cannot refer to an open group"
    else if opened < number then
      refuse "cannot refer to group defined in the same lookbehind subpattern"

/-- A group matched once more. -/
def againOf (flags : RegexFlags) (number : Nat) : Reading Regex := do
  if !isClosed (← get).groups number then refuse "cannot refer to an open group"
  else
    checkBehind number
    pure (.again number (caseKey flags))

/-- Is the text a name? It starts with a letter or an underscore and goes on with these and digits. -/
def isName (cs : List Char) : Bool :=
  match cs with
  | [] => false
  | c :: rest =>
    Text.isWordChar c && (Text.digitValue? c).isNone && rest.all Text.isWordChar

def groupName (close : Char) : Reading String := do
  let name ← takeName close
  if isName name then pure (String.ofList name) else refuse "bad character in group name"

/-- The number of a group with a name. -/
def namedGroup (name : String) : Reading Nat := do
  match (← get).groups.names.find? fun n ↦ n.1 == name with
  | some (_, number) => pure number
  | none => refuse "unknown group name"

/-- The group that a condition asks about, by name or by number. -/
def askedGroup : Reading Nat := do
  let name ← takeName ')'
  let number ←
    if isName name then namedGroup (String.ofList name)
    else match (Text.trimList name).mapM Text.digitValue? with
      | none => refuse "bad character in group name"
      | some digits =>
        match digits.foldl (fun n d ↦ 10 * n + d) 0 with
        | 0 => refuse "bad group number"
        | n => pure n
  modify fun s ↦ { s with groups := { s.groups with asked := number :: s.groups.asked } }
  checkBehind number
  pure number

/-- What the text behind an opening parenthesis says about the group. -/
inductive GroupHead where
  | counted (name? : Option String)
  | plain (flags : RegexFlags)
  | once
  | ahead (wanted : Bool)
  | behind (wanted : Bool)
  | again (number : Nat)
  | choose (number : Nat)
  | remark
  /-- How the whole pattern is understood. -/
  | global (flags : RegexFlags)

def isFlag (c : Char) : Bool := ['i', 'L', 'm', 's', 'x', 'a', 't', 'u'].contains c

/-- Letters that set flags and, behind a minus, letters that clear them. -/
def flagHead (flags : RegexFlags) : Reading GroupHead := do
  let letters ← takeAll isFlag
  if letters.contains 'L' || (letters.contains 'a' && letters.contains 'u') then
    refuse "bad inline flags"
  else
    match ← take with
    | some (.plain ')') =>
      if letters.isEmpty then refuse "missing flag" else pure (.global (flags.add letters))
    | some (.plain ':') =>
      if letters.isEmpty || letters.contains 't' then refuse "bad inline flags"
      else pure (.plain (flags.change letters []))
    | some (.plain '-') => do
      let cleared ← takeAll isFlag
      expect ':' "missing :"
      if cleared.isEmpty then refuse "missing flag"
      else if letters.contains 't'
          || cleared.any fun c ↦ ['a', 'u', 'L', 't'].contains c || letters.contains c then
        refuse "bad inline flags"
      else pure (.plain (flags.change letters cleared))
    | _ => refuse "missing -, : or )"

/-- A remark; the rest of it is read, with the closing parenthesis. -/
def skipRemark : Reading GroupHead := do
  let s ← get
  match s.rest.dropWhile (· != .plain ')') with
  | _ :: rest =>
    set { s with rest }
    pure .remark
  | [] => refuse "missing ), unterminated comment"

def groupHead (flags : RegexFlags) : Reading GroupHead := do
  if !(← accept '?') then pure (.counted none)
  else if (← peek).any fun s ↦ s.text.head?.any fun c ↦ isFlag c || c == '-' then flagHead flags
  else
    match ← take with
    | some (.plain ':') => pure (.plain flags)
    | some (.plain '>') => pure .once
    | some (.plain '=') => pure (.ahead true)
    | some (.plain '!') => pure (.ahead false)
    | some (.plain '#') => skipRemark
    | some (.plain '(') => do pure (.choose (← askedGroup))
    | some (.plain '<') =>
      if ← accept '=' then pure (.behind true)
      else
        expect '!' "unknown extension"
        pure (.behind false)
    | some (.plain 'P') =>
      if ← accept '<' then do pure (.counted (some (← groupName '>')))
      else
        expect '=' "unknown extension"
        pure (.again (← namedGroup (← groupName ')')))
    | _ => refuse "unknown extension"

/-! ## Repetition -/

/-- What can be said of a part that is to be repeated. -/
inductive PartKind where
  /-- An anchor cannot be repeated. -/
  | anchor
  /-- A repetition cannot be repeated. -/
  | repetition
  | other
  deriving DecidableEq, Repr

structure Part where
  regex : Regex
  kind : PartKind

/-- The greatest number of repetitions that can be written. -/
def mostRepeats : Nat := 4294967294

/-- Counts in braces, if that is what follows; the opening brace has been read. -/
def counts? : Reading (Option (Nat × Option Nat)) := do
  let s ← get
  let low ← takeAll Char.isDigit
  let hasComma ← accept ','
  let high ← if hasComma then takeAll Char.isDigit else pure low
  let closes ← accept '\x7d'
  if !closes || (!hasComma && low.isEmpty) then
    set s
    pure none
  else
    let least := numeral 10 low
    let most := if high.isEmpty then none else some (numeral 10 high)
    if mostRepeats < least || most.any (mostRepeats < ·) then
      throw (.tooLarge "the repetition number is too large")
    else if most.any (· < least) then refuse "min repeat greater than max repeat"
    else pure (some (least, most))

/-- How often the part before is repeated, if the sign says so. -/
def repetition? : Sign → Reading (Option (Nat × Option Nat))
  | .plain '*' => pure (some (0, none))
  | .plain '+' => pure (some (1, none))
  | .plain '?' => pure (some (0, some 1))
  | .plain '\x7b' => counts?
  | _ => pure none

/-- The repetition of an expression: lazy before `?`, without a way back before `+`, else greedy. -/
def repeated (r : Regex) (least : Nat) (most : Option Nat) : Reading Regex := do
  match ← peek with
  | some (.plain '?') => do
    discard take
    pure (.rep r least most .lazy)
  | some (.plain '+') => do
    discard take
    pure (.once (.rep (.once r) least most .greedy))
  | _ => pure (.rep r least most .greedy)

/-- Repeats the last of the parts, which come latest first. -/
def repeatLast (parts : List Part) (least : Nat) (most : Option Nat) : Reading (List Part) := do
  match parts with
  | [] => refuse "nothing to repeat"
  | ⟨r, kind⟩ :: others =>
    match kind with
    | .anchor => refuse "nothing to repeat"
    | .repetition => refuse "multiple repeat"
    | .other =>
      let r ← repeated r least most
      pure (⟨r, .repetition⟩ :: others)

/-! ## Parts -/

def isEdge (flags : RegexFlags) (p : Place) : Bool :=
  p.before.head?.any (isWord flags) != p.after.head?.any (isWord flags)

/-- The anchors that a letter behind a backslash stands for. -/
def anchor? (flags : RegexFlags) : Char → Option Regex
  | 'A' => some Regex.textStart
  | 'Z' => some (.at fun p ↦ p.after.isEmpty)
  | 'b' => some (.at fun p ↦ isEdge flags p)
  | 'B' => some (.at fun p ↦ !isEdge flags p)
  | _ => none

/-- A number behind a backslash: three octal digits are a character, all else is a group. -/
def numberEscape (flags : RegexFlags) (c : Char) : Reading Regex := do
  let digits := c :: (← takeRun Char.isDigit 1)
  let third := plainRun isOctal (← get).rest
  if digits.length == 2 && digits.all isOctal && !third.isEmpty then
    pure (literal flags (← octal (digits ++ (← takeRun isOctal 1))))
  else if (← get).groups.opened < numeral 10 digits then refuse "invalid group reference"
  else againOf flags (numeral 10 digits)

/-- A part that is no group and no repetition. -/
def single (flags : RegexFlags) : Sign → Reading Part
  | .plain '.' => pure ⟨if flags.dotAll then .set fun _ ↦ true else Regex.dot, .other⟩
  | .plain '^' =>
    pure ⟨if flags.multiline then .at fun p ↦ p.before.isEmpty || p.before.head? == some '\n'
      else Regex.textStart, .anchor⟩
  | .plain '$' =>
    pure ⟨if flags.multiline then .at fun p ↦ p.after.isEmpty || p.after.head? == some '\n'
      else Regex.textEnd, .anchor⟩
  | .plain '[' => do pure ⟨← charClass flags, .other⟩
  | .plain c => pure ⟨literal flags c.toNat, .other⟩
  | .escaped c =>
    match anchor? flags c, classEscape? flags c with
    | some r, _ => pure ⟨r, .anchor⟩
    | none, some p => pure ⟨.set fun c ↦ p c, .other⟩
    | none, none => do
      if c == '0' then pure ⟨literal flags (← octal (c :: (← takeRun isOctal 2))), .other⟩
      else if c.isDigit then pure ⟨← numberEscape flags c, .other⟩
      else pure ⟨literal flags (← charEscape c), .other⟩

/-- In a verbose pattern, does the sign say nothing? What belongs to a remark is read. -/
def skipped (flags : RegexFlags) (sign : Sign) : Reading Bool := do
  if !flags.verbose then pure false
  else match sign with
    | .plain '#' => do
      modify fun s ↦ { s with rest := (s.rest.dropWhile (· != .plain '\n')).tail }
      pure true
    | .plain c => pure ([' ', '\t', '\n', '\r', '\x0b', '\x0c'].contains c)
    | .escaped _ => pure false

/-- Parts, the latest first, one behind the other. -/
def joined (parts : List Part) : Regex := .concat (parts.reverse.map Part.regex)

def unclosed : String := "missing ), unterminated subpattern"

mutual

/-- Alternatives up to a closing parenthesis or the end, and the flags behind the first of them.
Only at the start of the whole pattern may these differ from the ones before. -/
def alternatives (flags : RegexFlags) (isWhole : Bool) : Nat → Reading (Regex × RegexFlags)
  | 0 => refuse "pattern too deep"
  | fuel + 1 => do
    let (parts, flags) ← sequence flags isWhole fuel []
    if ← accept '|' then
      let (r, _) ← alternatives flags false fuel
      pure (.alt (joined parts) r, flags)
    else pure (joined parts, flags)

/-- Parts up to the end of an alternative, behind those that have been read. -/
def sequence (flags : RegexFlags) (isFirst : Bool) :
    Nat → List Part → Reading (List Part × RegexFlags)
  | 0, _ => refuse "pattern too deep"
  | fuel + 1, parts => do
    match ← peek with
    | none | some (.plain '|') | some (.plain ')') => pure (parts, flags)
    | some sign =>
      discard take
      if ← skipped flags sign then sequence flags isFirst fuel parts
      else if sign == .plain '(' then
        match ← groupHead flags with
        | .remark => sequence flags isFirst fuel parts
        | .global flags =>
          if isFirst && parts.isEmpty then sequence flags isFirst fuel parts
          else refuse "global flags not at the start of the expression"
        | head => do
          let r ← group flags head fuel
          sequence flags isFirst fuel (⟨r, .other⟩ :: parts)
      else
        match ← repetition? sign with
        | some (least, most) => do
          sequence flags isFirst fuel (← repeatLast parts least most)
        | none => do sequence flags isFirst fuel ((← single flags sign) :: parts)

/-- A group whose head has been read. -/
def group (flags : RegexFlags) (head : GroupHead) : Nat → Reading Regex
  | 0 => refuse "pattern too deep"
  | fuel + 1 => do
    match head with
    | .counted name? => do
      let number ← openGroup name?
      let (r, _) ← alternatives flags false fuel
      expect ')' unclosed
      closeGroup number r
      pure (.group number r)
    | .once => do
      let (r, _) ← alternatives flags false fuel
      expect ')' unclosed
      pure (.once r)
    | .ahead wanted => do
      let (r, _) ← alternatives flags false fuel
      expect ')' unclosed
      pure (.ahead wanted r)
    | .behind wanted => do
      let outer := (← get).groups.behind
      modify fun s ↦
        { s with groups := { s.groups with behind := some (outer.getD s.groups.opened) } }
      let (r, _) ← alternatives flags false fuel
      modify fun s ↦ { s with groups := { s.groups with behind := outer } }
      expect ')' unclosed
      let w := r.width (widthOf (← get).groups)
      if w.most == some w.least then pure (.behind wanted w.least r)
      else refuse "look-behind requires fixed-width pattern"
    | .again number => againOf flags number
    | .choose number => do
      let (yes, _) ← sequence flags false fuel []
      let no ← if ← accept '|' then do
          let (no, _) ← sequence flags false fuel []
          pure (joined no)
        else pure .empty
      expect ')' unclosed
      pure (.choose number (joined yes) no)
    | .plain inner => do
      let (r, _) ← alternatives inner false fuel
      expect ')' unclosed
      pure r
    | .remark | .global _ => pure .empty

end

/-- A whole pattern. -/
def whole : Reading Regex := do
  let (r, flags) ← alternatives .none true (3 * (← get).rest.length + 3)
  if flags.ascii && flags.allScripts then throw (.badValue "flags are incompatible")
  else if !(← get).rest.isEmpty then refuse "unbalanced parenthesis"
  else
    let groups := (← get).groups
    if groups.asked.any (groups.opened < ·) then refuse "invalid group reference" else pure r

end RegexReader

/-- Reads a pattern. -/
def Regex.read (pattern : String) : Except Mismatch Regex := do
  let signs ← RegexReader.signs pattern.toList
  RegexReader.whole.run' ⟨signs, ⟨0, [], [], none, []⟩⟩

end CodeAtlas.Pattern
