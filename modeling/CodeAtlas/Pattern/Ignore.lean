import CodeAtlas.Fault
import CodeAtlas.Path
import CodeAtlas.Pattern.RegexReader
import CodeAtlas.Text.Utf8

/-!
# Ignore files

Every line of an ignore file is a rule about paths below the directory of the file. A path is
ignored if the last rule that speaks of it says so.

A rule is written as a path with wildcards. Between two slashes `*` stands for any characters, `?`
for one, and brackets for a class; a segment `**` stands for any number of directories. A rule
without an inner slash speaks of names at any depth. A rule that speaks of a directory also speaks
of all that is below it.
-/

namespace CodeAtlas.Pattern

/-- What a rule says about a path. -/
inductive PathPattern where
  /-- There is at least one character. -/
  | anything
  /-- There is a slash. -/
  | inDirectory
  /-- The path starts as the expression says. -/
  | shape (r : Regex)

def PathPattern.holds (path : List Char) : PathPattern → Bool
  | anything => path.any (· != '\n')
  | inDirectory => path.contains '/'
  | shape r => r.matchesStart path

structure IgnoreRule where
  /-- Is what matches ignored, or kept? -/
  ignores : Bool
  pattern : PathPattern

/-- The rules of an ignore file, in order. -/
abbrev IgnoreRules := List IgnoreRule

namespace IgnoreRules

/-- The path as rules see it: from the directory of the file on. -/
def relative : List Char → List Char
  | '/' :: rest => rest
  | '.' :: '/' :: rest => rest
  | path => path

/-- Is a path ignored? The path of a directory ends in a slash. -/
def ignores (rules : IgnoreRules) (path : String) : Bool :=
  match (rules.filter fun r ↦ r.pattern.holds (relative path.toList)).getLast? with
  | some r => r.ignores
  | none => false

end IgnoreRules

namespace IgnoreReader

/-- Why a rule cannot be read. -/
inductive Flaw where
  /-- Such a rule says nothing. -/
  | openBracket
  | loneEscape
  | badClass (why : Mismatch)

/-! ## Segments -/

def notSlash : Regex := .set (· != '/')

/-- How many characters a bracket expression has before its closing bracket; a closing bracket that
comes first belongs to the expression. -/
def bracketLength? (cs : List Char) : Option Nat :=
  let mark := if cs.head? == some '!' || cs.head? == some '^' then 1 else 0
  let start := if (cs.drop mark).head? == some ']' then mark + 1 else mark
  let length := start + ((cs.drop start).takeWhile (· != ']')).length
  if length < cs.length then some length else none

/-- Reads the inside of a bracket expression, in which a backslash stands for itself. -/
def bracketClass (inside : List Char) : Except Flaw Regex :=
  let inside := match inside with
    | '!' :: rest => '^' :: rest
    | cs => cs
  let signs := inside.map (fun c ↦ if c == '\\' then Sign.escaped c else .plain c) ++ [.plain ']']
  ((RegexReader.charClass .none).run' ⟨signs, ⟨0, [], [], none, []⟩⟩).mapError .badClass

/-- The characters of a segment, as expressions. -/
def segmentParts : List Char → Except Flaw (List Regex)
  | [] => .ok []
  | ['\\'] => .error .loneEscape
  | '\\' :: c :: rest => do pure (.char c :: (← segmentParts rest))
  | '*' :: rest => do pure (.many notSlash 0 :: (← segmentParts rest))
  | '?' :: rest => do pure (notSlash :: (← segmentParts rest))
  | '[' :: rest =>
    match bracketLength? rest with
    | none => .error .openBracket
    | some n => do
      let r ← bracketClass (rest.take n)
      pure (r :: (← segmentParts (rest.drop (n + 1))))
  | c :: rest => do pure (.char c :: (← segmentParts rest))
termination_by cs => cs.length
decreasing_by all_goals (simp only [List.length_cons, List.length_drop]; omega)

def segment (cs : List Char) : Except Flaw Regex := do pure (.concat (← segmentParts cs))

/-! ## Paths -/

/-- Any number of directories. -/
def anyDepth : List Char := ['*', '*']

/-- Any one name. -/
def anyName : List Char := ['*']

def slash : Regex := .char '/'

/-- The end of the path, or of the directory above what the path names. -/
def pathEnd : Regex := .alt slash .textEnd

/-- The expression for the segments of a rule. `slashed` says whether a slash is due before the next
name. -/
def shape (isFirst slashed : Bool) : List (List Char) → Except Flaw Regex
  | [] => .ok .empty
  | s :: rest =>
    if s == anyDepth then
      if isFirst then do
        pure (.seq (.optional (.seq (.many .dot 1) slash)) (← shape false false rest))
      else if rest.isEmpty then .ok slash
      else do
        pure (.seq (.optional (.seq slash (.many .dot 1))) (← shape false true rest))
    else do
      let name ← if s == anyName then pure (.many notSlash 1) else segment s
      let name := if slashed then .seq slash name else name
      if rest.isEmpty then pure (.seq name pathEnd) else pure (.seq name (← shape false true rest))

/-- Drops all but one of neighbouring `**`. -/
def collapse : List (List Char) → List (List Char)
  | s :: t :: rest =>
    if s == anyDepth && t == anyDepth then collapse (t :: rest) else s :: collapse (t :: rest)
  | segments => segments

/-- A rule that speaks of names at any depth starts with `**`. -/
def rooted : List (List Char) → List (List Char)
  | [] :: rest => rest
  | [s] => if s == anyDepth then [s] else [anyDepth, s]
  | [s, []] => if s == anyDepth then [s, []] else [anyDepth, s, []]
  | segments => segments

/-- A rule for a directory speaks of what is below it. -/
def closed (segments : List (List Char)) : List (List Char) :=
  if segments.getLast? == some [] then segments.dropLast ++ [anyDepth] else segments

/-- Reads the path of a rule. -/
def pathPattern (cs : List Char) : Except Flaw PathPattern :=
  let segments := Path.pieces cs
  let isDirectory := segments.getLast? == some []
  let segments := rooted segments
  if segments.isEmpty then .error .loneEscape
  else
    let segments := collapse (closed segments)
    if segments == [anyDepth] then .ok (if isDirectory then .inDirectory else .anything)
    else if segments == [anyDepth, anyName] then .ok .anything
    else if segments == [anyDepth, anyName, anyDepth] then .ok .inDirectory
    else do pure (.shape (← shape true false segments))

/-! ## Lines -/

/-- A line without the blanks behind it, unless the last of them is escaped. -/
def trimmedLine (cs : List Char) : List Char :=
  match cs.reverse with
  | ' ' :: '\\' :: _ => cs
  | _ => Text.trimEndList cs

/-- Reads a line; some lines say nothing. -/
def rule? (line : String) : Except Fault (Option IgnoreRule) :=
  let cs := trimmedLine line.toList
  if cs == ['/'] || cs.isEmpty then .ok none
  else
    let (ignores, cs) := match cs with
      | '!' :: rest => (false, rest)
      | cs => (true, cs)
    match pathPattern cs with
    | .ok pattern => .ok (some ⟨ignores, pattern⟩)
    | .error .openBracket => .ok none
    | .error .loneEscape => .error (.badIgnorePattern line)
    | .error (.badClass why) => .error (.mismatch why)

/-- The lines of a text; a line ends with a line feed, a carriage return or both. -/
def lines : List Char → List Char → List (List Char)
  | line, [] => if line.isEmpty then [] else [line.reverse]
  | line, '\r' :: '\n' :: rest => line.reverse :: lines [] rest
  | line, '\r' :: rest => line.reverse :: lines [] rest
  | line, '\n' :: rest => line.reverse :: lines [] rest
  | line, c :: rest => lines (c :: line) rest

/-- Does the line hold more than blanks and a remark? -/
def isRule (line : List Char) : Bool :=
  match Text.trimStartList line with
  | [] => false
  | '#' :: _ => false
  | _ => true

/-- Reads lines in order. -/
def rules : List String → Except Fault IgnoreRules
  | [] => .ok []
  | line :: rest => do
    let r ← rule? line
    pure (r.toList ++ (← rules rest))

end IgnoreReader

/-- Reads an ignore file. Bytes that are no text are left out. -/
def IgnoreRules.ofBytes (bytes : List UInt8) : Except Fault IgnoreRules :=
  IgnoreReader.rules (((IgnoreReader.lines [] (Text.decodeSkipping bytes)).filter
    IgnoreReader.isRule).map String.ofList)

end CodeAtlas.Pattern
