import CodeAtlas.Files.Scan
import CodeAtlas.Indexing.Registration

/-!
# Registering what is in a file tree

Files are known under their real paths, so a file is read, and its imports are resolved, through the
tree that it lies in.
-/

namespace CodeAtlas.Indexing

open Program
open Syntax (Outline SourceRules)

def scannerName : String := "scanner"

/-- How the files of a tree are registered. -/
structure IndexRules where
  source : SourceRules
  registration : RegistrationRules
  maxFileSize : Int
  /-- How many files may be registered at the same time. -/
  concurrency : Int

namespace IndexRules

/-- The rules that the settings ask for. -/
def ofSettings (s : Settings) (enriches : Bool) : IndexRules where
  source := { toExtensions := s.extensions, refusesMalformed := true }
  registration := { linkLocal := s.linkLocalCalls, enriches, reparse := false }
  maxFileSize := s.maxFileSize
  concurrency := s.maxConcurrentFiles

/-- The rules under which functions are queued although they have a record. -/
def reparsing (rules : IndexRules) (reparse : Bool) : IndexRules :=
  { rules with registration := { rules.registration with reparse } }

end IndexRules

/-- Reads the file at a path. -/
def outlineAt (source : SourceRules) (files : FileTree) (path : String) : Except Fault Outline :=
  if path.toList.contains '\x00' then .error .noPath
  else
    let path := files.realPath path
    match files.read path with
    | .ok content => source.outline files.realPath path content.toList
    | .error why => .error (.source path (.unreadable why))

/-- Registers the file at a path. -/
def registerPath (rules : IndexRules) (files : FileTree) (path : String) :
    Program (Option Registration) :=
  registerFile rules.registration (outlineAt rules.source files path)

/-- Reports the files that are left out because of their size. -/
def reportLarge : List Finding → Program Unit
  | [] => pure ()
  | .tooLarge path :: rest => do
    warn scannerName s!"Skipping large file: {path}"
    reportLarge rest
  | .source _ :: rest => reportLarge rest

/-- The paths of all sources below a directory. -/
def findSources (files : FileTree) (extensions : List String) (maxFileSize : Int) (root : String) :
    Program (List String) := do
  let findings ← ofExcept (files.scan extensions maxFileSize root)
  reportLarge findings
  pure (Scan.sources findings)

/-- Registers every source below a directory. -/
def registerTree (rules : IndexRules) (files : FileTree) (root : String) :
    Program (List Registration) := do
  if root.toList.contains '\x00' then .fail .noPath
  else
    let paths ← findSources files rules.source.known rules.maxFileSize root
    if rules.concurrency < 0 then
      .fail (.mismatch (.badValue "the number of files at a time must not be negative"))
    else
      registerDirectory rules.registration
        (paths.map fun path ↦ (path, outlineAt rules.source files path))

end CodeAtlas.Indexing
