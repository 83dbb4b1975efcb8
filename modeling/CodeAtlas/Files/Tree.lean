import CodeAtlas.Datum
import CodeAtlas.Fault
import CodeAtlas.Path

/-!
# File trees

What a file system holds below its root: files, directories, links that stand for the path written in
them, and special files, which have a name like the others but cannot be opened. The *real path* of a
path is the one that leads to the same place without passing a link. It exists also where there is no
file: what is not there is no link. A link that is met again while it is being followed is left as it
is.
-/

namespace CodeAtlas

inductive FileTree where
  | file (content : ByteArray)
  /-- What is neither file, link nor directory, such as a socket, with the reason why it cannot be
  opened. -/
  | special (why : FileFault)
  | link (target : String)
  | directory (entries : List (String × FileTree))
  deriving Inhabited

namespace FileTree

/-- A tree without files. -/
def empty : FileTree := directory []

/-! ## Places

A place is given by the names that lead to it from the root. -/

/-- What a place holds; links are not followed. -/
def at? : List String → FileTree → Option FileTree
  | [], t => some t
  | name :: rest, directory entries => (Props.get? name entries).bind (at? rest)
  | _ :: _, _ => none

/-- Puts something at a place and makes the directories above it. -/
def put (content : FileTree) : List String → FileTree → FileTree
  | [], _ => content
  | name :: rest, directory entries =>
    directory (Props.insert name (put content rest ((Props.get? name entries).getD empty)) entries)
  | name :: rest, _ => directory [(name, put content rest empty)]

/-- Removes what is at a place. -/
def erase : List String → FileTree → FileTree
  | [name], directory entries => directory (Props.erase name entries)
  | name :: rest, directory entries =>
    match Props.get? name entries with
    | some t => directory (Props.insert name (erase rest t) entries)
    | none => directory entries
  | _, t => t

mutual

/-- The number of links in a tree. -/
def linkCount : FileTree → Nat
  | file _ | special _ => 0
  | link _ => 1
  | directory entries => linkCountAll entries

def linkCountAll : List (String × FileTree) → Nat
  | [] => 0
  | (_, t) :: rest => linkCount t + linkCountAll rest

end

/-! ## Real paths -/

/-- The names on a path; those that lead nowhere are left out. -/
def namesOn (path : String) : List String :=
  ((Path.pieces path.toList).filter fun s ↦ !Path.isIdle s).map String.ofList

def isAbsolute (path : String) : Bool := path.toList.head? == some '/'

/-- Follows names from a place, which is given last name first. `fuel` bounds the number of links
that are being followed at the same time, which are the `started` ones. -/
def follow (root : FileTree) (fuel : Nat) (started : List (List String)) (place : List String) :
    List String → List String
  | [] => place
  | name :: rest =>
    if name == ".." then follow root fuel started (place.drop 1) rest
    else
      let next := name :: place
      match root.at? next.reverse, fuel with
      | some (.link target), fuel + 1 =>
        if started.contains next then follow root (fuel + 1) started next rest
        else
          let start := if isAbsolute target then [] else place
          follow root (fuel + 1) started
            (follow root fuel (next :: started) start (namesOn target)) rest
      | _, fuel => follow root fuel started next rest
termination_by names => (fuel, names.length)

/-- The place that a path leads to. -/
def placeOf (root : FileTree) (path : String) : List String :=
  (root.follow root.linkCount [] [] (namesOn path)).reverse

/-- Writes a place as an absolute path. -/
def pathOf (place : List String) : String :=
  if place.isEmpty then "/" else String.join (place.map ("/" ++ ·))

/-- The path to the same place that passes no link. -/
def realPath (root : FileTree) (path : String) : String := pathOf (root.placeOf path)

/-! ## Reading and writing -/

/-- No name is longer than this many bytes. -/
def maxNameLength : Nat := 255

/-- No path is longer than this many bytes. -/
def maxPathLength : Nat := 4095

/-- What is at a place, or why there is nothing. -/
def find : List String → FileTree → Except FileFault FileTree
  | [], t => .ok t
  | name :: rest, directory entries =>
    if maxNameLength < name.utf8ByteSize then .error .nameTooLong
    else
      match Props.get? name entries with
      | some t => find rest t
      | none => .error .missing
  | _ :: _, link _ => .error .tooManyLinks
  | _ :: _, file _ | _ :: _, special _ => .error .notDirectory

/-- The size of a file. A special file has no content. -/
def fileSize? : FileTree → Option Nat
  | file content => some content.size
  | special _ => some 0
  | link _ | directory _ => none

/-- The size of the file that a path leads to. -/
def sizeAt? (root : FileTree) (path : String) : Option Nat :=
  if maxPathLength < path.utf8ByteSize then none
  else (find (root.placeOf path) root).toOption.bind fileSize?

/-- The content of a file. -/
def read (root : FileTree) (path : String) : Except FileFault ByteArray :=
  if maxPathLength < path.utf8ByteSize then .error .nameTooLong
  else
    match find (root.placeOf path) root with
    | .ok (file content) => .ok content
    | .ok (special why) => .error why
    | .ok (directory _) => .error .isDirectory
    | .ok (link _) => .error .tooManyLinks
    | .error e => .error e

def isFile (root : FileTree) (path : String) : Bool :=
  match root.read path with
  | .ok _ => true
  | .error _ => false

/-- Whether a path leads to something, which need not be a file. -/
def isThere (root : FileTree) (path : String) : Bool :=
  if maxPathLength < path.utf8ByteSize then false
  else
    match find (root.placeOf path) root with
    | .ok (file _) | .ok (special _) | .ok (directory _) => true
    | .ok (link _) | .error _ => false

/-- Why a file cannot be written at a path, if there is a reason: a file has to be there, or a
directory that it can be put into. -/
def writeFault? (root : FileTree) (path : String) : Option FileFault :=
  if maxPathLength < path.utf8ByteSize then some .nameTooLong
  else
    let place := root.placeOf path
    match find place root, find place.dropLast root with
    | .ok (file _), _ => none
    | .ok (special why), _ => some why
    | .ok (directory _), _ => some .isDirectory
    | .ok (link _), _ => some .tooManyLinks
    | .error .missing, .ok (directory _) => none
    | .error e, _ => some e

/-- Puts a file at a path, through a link if there is one, and makes the directories above it. -/
def putFile (root : FileTree) (path : String) (content : ByteArray) : FileTree :=
  put (.file content) (root.placeOf path) root

/-- Writes a file, through a link if there is one. What cannot be written is left out. -/
def write (root : FileTree) (path : String) (content : ByteArray) : FileTree :=
  if (root.writeFault? path).isSome then root else root.putFile path content

/-- The place of a path whose last name is not followed if it is a link. -/
def entryPlace (root : FileTree) (path : String) : List String :=
  let names := namesOn path
  root.placeOf (pathOf names.dropLast) ++ names.getLast?.toList

/-- Puts an entry at a path. -/
def putEntry (root : FileTree) (path : String) (entry : FileTree) : FileTree :=
  put entry (root.entryPlace path) root

/-- Makes sure that there is an entry at a path: a file is put there, through a link if there is one,
and a directory that is there already keeps what is in it. -/
def install (root : FileTree) (path : String) (entry : FileTree) : FileTree :=
  match entry with
  | file content => root.putFile path content
  | special _ | link _ => root.putEntry path entry
  | directory entries =>
    match entries, root.at? (root.entryPlace path) with
    | [], some (directory _) => root
    | _, _ => root.putEntry path entry

/-- Removes the entry at a path. -/
def eraseEntry (root : FileTree) (path : String) : FileTree :=
  erase (root.entryPlace path) root

end FileTree

end CodeAtlas
