import CodeAtlas.CommandLine.Usage
import CodeAtlas.Rehearsal.Commands

/-!
# The program

Reads the files below a directory, indexes them, and writes the document of the graph. Everything
that needs a service is out of reach here and is reported as a failure.
-/

namespace CodeAtlas.Main

/-- More levels of directories than this are not read. -/
def maxLevels : Nat := 100

/-- Reads what is at a place of the disk. -/
def readTree : (levels : Nat) → IO.FS.DirEntry → IO FileTree
  | 0, _ => pure .empty
  | levels + 1, place => do
    if ← place.path.isDir then
      let entries ← place.path.readDir
      let kept := entries.toList.filter fun e ↦ !Scan.skippedDirectories.contains e.fileName
      pure (.directory (← kept.mapM fun e ↦ do pure (e.fileName, ← readTree levels e)))
    else pure (.file (← IO.FS.readBinFile place.path))

/-- An entry for a path given as a text. -/
def entryAt (path : String) : IO.FS.DirEntry := ⟨path, "."⟩

/-- The place of a path, seen from the working directory. -/
def placeOf (path : String) : IO String := do
  pure (Path.join (← IO.currentDir).toString path)

/-- Reads a directory and the document of the graph, where they are there. -/
def readFiles (root document : String) : IO FileTree := do
  let files ← if ← (entryAt root).path.isDir then
      pure (FileTree.empty.putEntry root (← readTree maxLevels (entryAt root)))
    else pure FileTree.empty
  match ← (IO.FS.readFile document).toBaseIO with
  | .ok text => pure (files.install document (.file text.toUTF8))
  | .error _ => pure files

def print (n : Notice) : IO Unit := do
  let kind := if n.isError then "ERROR" else "WARNING"
  IO.eprintln s!"{kind} {n.source}: {n.text}"

/-- Indexes a directory. -/
def index (settings : Settings) (words : List String) (root : String) : IO UInt32 := do
  let root ← placeOf root
  let document ← placeOf (settings.graphStoragePath.getD "")
  let files ← readFiles root document
  let r := { Rehearsal.new settings files with document := some document }
  let (outcome, r) := r.runCommandLine words (some (Rehearsal.outOfReach "the language model"))
  r.notices.forM print
  match r.files.read document with
  | .ok content =>
    if let some directory := (entryAt document).root.parent then
      IO.FS.createDirAll directory
    IO.FS.writeBinFile document content
  | .error _ => pure ()
  pure outcome.exitCode.toUInt32

end CodeAtlas.Main

open CodeAtlas CommandLine in
/-- Executes the command that the words ask for. -/
def main (words : List String) : IO UInt32 := do
  match Arguments.ofWords .standard words with
  | .error stop =>
    (match stop with
      | .help => IO.println stop.text
      | .misuse _ => IO.eprintln stop.text)
    pure stop.exitCode.toUInt32
  | .ok arguments =>
    match arguments.command with
    | .index root _ => Main.index .standard words root
    | c => do
      IO.eprintln s!"ERROR {commandName}: {(Rehearsal.outOfReach c.name).text}"
      pure 1
