import CodeAtlas.Files.Tree
import CodeAtlas.Pattern.Ignore

/-!
# Finding the sources of a directory

The files below a directory are visited with those of a directory before those of its
subdirectories, both by name. Some directories hold nothing that was written by hand and are not
entered; the ignore file at the root leaves out others. A link to a file counts as a file under its
own name, but is reported as the file it leads to; a link to a directory is not followed. Whether a
file can be opened is not looked at: a special file counts like an empty one.
-/

namespace CodeAtlas

/-- What the visit of a file comes to. -/
inductive Finding where
  | source (path : String)
  | tooLarge (path : String)
  deriving DecidableEq, Repr

/-- What counts as a source. -/
structure ScanRules where
  extensions : List String
  maxSize : Int
  /-- Is a path relative to the root ignored? The path of a directory ends in a slash. -/
  ignores : String → Bool

namespace Scan

/-- Directories that are not entered, wherever they are. -/
def skippedDirectories : List String :=
  [".git", "node_modules", "build", "dist", "logs", "coverage", ".next", ".turbo", ".cache", ".idea",
    ".vscode"]

/-- Does the name of a file end in one of the extensions? -/
def hasExtension (extensions : List String) (path : String) : Bool :=
  extensions.contains (Text.lowerCase (Path.suffix path))

/-- Is the directory entered? -/
def enters (rules : ScanRules) (name relative : String) : Bool :=
  !skippedDirectories.contains name && !rules.ignores (relative ++ "/")

/-- What becomes of a file of some size. -/
def judge (rules : ScanRules) (relative path realPath : String) (size : Nat) : Option Finding :=
  if !hasExtension rules.extensions path || rules.ignores relative then none
  else if rules.maxSize < size then some (.tooLarge path)
  else some (.source realPath)

/-- The path below a directory; the root itself has no relative path. -/
def under (relative name : String) : String :=
  if relative.isEmpty then name else relative ++ "/" ++ name

/-- The finding for an entry that is no directory. `whole` is the tree that links lead through. -/
def visitFile (rules : ScanRules) (whole : FileTree) (root relative : String) (entry : FileTree) :
    Option Finding :=
  let path := Path.join root relative
  match entry with
  | .link _ => (whole.sizeAt? path).bind (judge rules relative path (whole.realPath path))
  | entry => entry.fileSize?.bind (judge rules relative path path)

def byName {α : Type} (entries : List (String × α)) : List α := (Props.sorted entries).map (·.2)

mutual

/-- The findings below a directory. -/
def visit (rules : ScanRules) (whole : FileTree) (root relative : String) : FileTree → List Finding
  | .directory entries =>
    (byName (entries.map fun (name, t) ↦
        (name, visitFile rules whole root (under relative name) t))).filterMap id
      ++ (byName (visitDirectories rules whole root relative entries)).flatten
  | _ => []

/-- The findings of every subdirectory, each with its name. -/
def visitDirectories (rules : ScanRules) (whole : FileTree) (root relative : String) :
    List (String × FileTree) → List (String × List Finding)
  | [] => []
  | (name, t) :: rest =>
    (name, if enters rules name (under relative name) then
        visit rules whole root (under relative name) t
      else [])
      :: visitDirectories rules whole root relative rest

end

/-- The paths of the sources that were found, in order. -/
def sources (findings : List Finding) : List String :=
  findings.filterMap fun
    | .source path => some path
    | .tooLarge _ => none

end Scan

namespace FileTree

/-- The rules of the ignore file in a directory, if there is one. -/
def ignoreRules? (root : FileTree) (path : String) :
    Except Fault (Option Pattern.IgnoreRules) :=
  match root.read (Path.join path ".gitignore") with
  | .ok content => do pure (some (← Pattern.IgnoreRules.ofBytes content.toList))
  | .error _ => .ok none

/-- Does the rule file, if there is one, leave out a path? -/
def ignoredBy (rules : Option Pattern.IgnoreRules) (path : String) : Bool :=
  match rules with
  | some rules => rules.ignores path
  | none => false

/-- Visits the files below a directory. -/
def scanBy (root : FileTree) (rules : ScanRules) (path : String) : List Finding :=
  let path := root.realPath path
  match root.at? (root.placeOf path) with
  | some t => Scan.visit rules root path "" t
  | none => []

/-- Visits the files below a directory. What is ignored is what the ignore file there says. -/
def scan (root : FileTree) (extensions : List String) (maxSize : Int) (path : String) :
    Except Fault (List Finding) := do
  let ignored ← root.ignoreRules? (root.realPath path)
  pure (root.scanBy ⟨extensions, maxSize, ignoredBy ignored⟩ path)

end FileTree

end CodeAtlas
