import CodeAtlas.Text.LowerCase

/-!
# Paths

A path is a text with slashes; its *segments* are the pieces between them. Empty segments and single
points say nothing, and a double point takes back the segment before it. The *normal form* of an
absolute path is what is left: it is the key under which a file is known.

What an import names is resolved against the directory of the importing file. An ending that is not
one of the known extensions is taken for a part of the name, so the default extension is added.
-/

namespace CodeAtlas.Path

/-! ## Segments -/

/-- The pieces between slashes, empty ones included. -/
def pieces : List Char → List (List Char)
  | [] => [[]]
  | c :: rest =>
    if c == '/' then [] :: pieces rest
    else
      match pieces rest with
      | [] => [[c]]
      | p :: ps => (c :: p) :: ps

/-- A segment that leads nowhere. -/
def isIdle (segment : List Char) : Bool := segment == [] || segment == ['.']

/-- What a path starts with before its first segment. Two slashes, but no more, may mean something of
their own. -/
def anchor : List Char → List Char
  | '/' :: '/' :: '/' :: _ => ['/']
  | '/' :: '/' :: _ => ['/', '/']
  | '/' :: _ => ['/']
  | _ => []

/-- Follows a segment from a place, which is given as its segments, the last one first. -/
def follow (place : List (List Char)) (segment : List Char) : List (List Char) :=
  if isIdle segment then place
  else if segment == ['.', '.'] then place.drop 1
  else segment :: place

/-- The place a path leads to, the last segment first. -/
def place (p : List Char) : List (List Char) := (pieces p).foldl follow []

/-- Writes a place as an absolute path. -/
def ofPlace (place : List (List Char)) : List Char :=
  if place.isEmpty then ['/'] else place.reverse.flatMap fun s ↦ '/' :: s

def normalList (p : List Char) : List Char := ofPlace (place p)

/-- The normal form of an absolute path. -/
def normal (p : String) : String := String.ofList (normalList p.toList)

/-- The key of a path, for a text that may be no path: the null character occurs in none. -/
def keyed (key : String → String) (p : String) : Option String :=
  if p.toList.contains '\x00' then none else some (key p)

/-- The normal form, for a text that may be no path. -/
def normal? : String → Option String := keyed normal

/-! ## Directories and names -/

/-- Everything up to the last slash; trailing slashes are dropped unless there is nothing else. -/
def directoryList (p : List Char) : List Char :=
  let head := (p.reverse.dropWhile (· != '/')).reverse
  if head.all (· == '/') then head else (head.reverse.dropWhile (· == '/')).reverse

def directory (p : String) : String := String.ofList (directoryList p.toList)

/-- A path seen from a directory. -/
def joinList (dir p : List Char) : List Char :=
  if p.head? == some '/' then p
  else if dir.isEmpty || dir.getLast? == some '/' then dir ++ p
  else dir ++ '/' :: p

def join (dir p : String) : String := String.ofList (joinList dir.toList p.toList)

/-- The last segment that leads somewhere. -/
def lastName (p : List Char) : List Char := ((pieces p).filter fun s ↦ !isIdle s).getLastD []

/-- The ending of a name from its last point on. A point at either end of the name starts none. -/
def suffixList (name : List Char) : List Char :=
  let ending := name.reverse.takeWhile (· != '.')
  if ending.isEmpty || name.length ≤ ending.length + 1 then [] else '.' :: ending.reverse

/-- The extension of the file that a path names, with its point. -/
def suffix (p : String) : String := String.ofList (suffixList (lastName p.toList))

/-- The segments of a path below a directory, if it lies there. Both are compared as they are
written, without following double points. -/
def below? (root p : String) : Option (List String) :=
  let parts (q : String) := (pieces q.toList).filter fun s ↦ !isIdle s
  let r := parts root
  let q := parts p
  if anchor root.toList == anchor p.toList && r.isPrefixOf q then
    some ((q.drop r.length).map String.ofList)
  else none

/-! ## What an import names -/

/-- Which files are sources, and how an import without extension is completed. -/
structure Extensions where
  known : List String
  default : String

/-- Does the specifier name a file, and not a package? -/
def isRelative (specifier : String) : Bool :=
  specifier == "." || specifier == ".." || "./".toList.isPrefixOf specifier.toList
    || "../".toList.isPrefixOf specifier.toList

/-- Is the specifier written as a directory, whose index file is meant? -/
def namesIndex (specifier : String) : Bool :=
  let bare := (specifier.toList.reverse.dropWhile (· == '/')).reverse
  bare == ['.'] || bare == ['.', '.'] || specifier.toList.getLast? == some '/'

/-- The path that a relative specifier stands for, not yet in normal form. -/
def target (exts : Extensions) (importer specifier : String) : String :=
  let raw := join (directory importer) specifier
  let raw := if namesIndex specifier then join raw "index" else raw
  if exts.known.contains (suffix raw) then raw else raw ++ exts.default

/-- What a specifier names: the key of a file, or the specifier itself if it is no path. `locate`
gives the key of a text, if that is a path. -/
def resolveWith (locate : String → Option String) (exts : Extensions) (importer specifier : String) :
    Option String :=
  if isRelative specifier then locate (target exts importer specifier) else some specifier

/-- What a specifier names where no directory is reached through a link. -/
def resolve? : Extensions → String → String → Option String := resolveWith normal?

end CodeAtlas.Path
