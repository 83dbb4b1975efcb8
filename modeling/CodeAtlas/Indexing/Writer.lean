import CodeAtlas.Program

/-!
# Writing files, functions and their edges

Every write is a merge, so repeating it changes nothing. A write that the graph refuses is reported
and passed over; the rest of the file is still written. Any other failure ends the work on the file.
-/

namespace CodeAtlas.Indexing

open CodeAtlas.Graph Program
open Syntax (Import)

def writerName : String := "graph_writer"

/-- Goes on with a substitute where the graph refuses a write. -/
def orRefused {α : Type} (p : Program α) (message : Fault → String) (substitute : α) : Program α := do
  match ← p.attempt with
  | .ok a => pure a
  | .error (.graphWrite m c) =>
    report writerName (message (.graphWrite m c))
    pure substitute
  | .error e => .fail e

def mergeFile (path : String) : Program (Option String) :=
  orRefused (some <$> request (.mergeNode fileLabel (fileKey (.text path))))
    (fun e ↦ s!"Failed to merge File {path}: {e.text}") none

/-- Merges a function's node and answers with its id. -/
def mergeFunction (name path : String) : Program (Option String) :=
  orRefused (some <$> request (.mergeNode functionLabel (functionKey (.text name) (.text path))))
    (fun e ↦ s!"Failed to merge Function {name} in {path}: {e.text}") none

def mergeImport (source target clause : String) : Program Bool :=
  orRefused
    (do
      let _ ← request (.mergeRelationship importsFrom fileLabel (fileKey (.text source)) fileLabel
        (fileKey (.text target)) (some [("clause", .text clause)]))
      pure true)
    (fun e ↦ s!"Failed to merge import {clause} from {target} in {source}: {e.text}") false

/-- Merges a call; the path of the callee comes from the graph and may be any data. -/
def mergeCall (callerName callerPath calleeName : String) (calleePath : Datum) : Program Bool :=
  orRefused
    (do
      let _ ← request (.mergeRelationship calls functionLabel
        (functionKey (.text callerName) (.text callerPath)) functionLabel
        (functionKey (.text calleeName) calleePath) none)
      pure true)
    (fun e ↦ s!"Failed to merge call {callerName}@{callerPath} -> {calleeName}@" ++
      s!"{calleePath.display}: {e.text}") false

/-- Deletes an import; its clause and target come from the graph and may be any data. -/
def deleteImport (source : String) (target clause : Datum) : Program Nat :=
  orRefused
    (request (.deleteRelationship importsFrom fileLabel (fileKey (.text source)) fileLabel
      (fileKey target) (some [("clause", clause)])))
    (fun e ↦ s!"Failed to delete stale import {clause.display} in {source}: {e.text}") 0

def deleteCall (callerName callerPath : String) (calleeName calleePath : Datum) : Program Nat :=
  orRefused
    (request (.deleteRelationship calls functionLabel
      (functionKey (.text callerName) (.text callerPath)) functionLabel
      (functionKey calleeName calleePath) none))
    (fun e ↦ s!"Failed to delete stale call from {callerName}@{callerPath}: {e.text}") 0

/-! ## Imports of a file -/

/-- Collections cannot be compared with what is wanted. -/
def checkComparable : Datum → Except Fault Unit
  | .list _ => .error (.mismatch (.wrongType "unhashable type: 'list'"))
  | .map _ => .error (.mismatch (.wrongType "unhashable type: 'dict'"))
  | _ => .ok ()

/-- Is the pair of values, found in the graph, a wanted name with a wanted path? -/
def isWanted (wanted : List (String × Datum)) (name path : Datum) : Except Fault Bool := do
  checkComparable name
  checkComparable path
  pure (wanted.any fun w ↦ (Datum.text w.1).same name && w.2.same path)

def propertyOf (key : String) (properties : Props) : Datum := (Props.get? key properties).getD .null

/-- Merges imports one by one and counts those that were written. -/
def mergeImports (path : String) : List Import → Program Nat
  | [] => pure 0
  | i :: rest => do
    let written ← mergeImport path i.source i.clause
    let count ← mergeImports path rest
    pure (if written then count + 1 else count)

/-- Deletes the imports found in the graph that the file does not have any more. -/
def deleteStaleImports (path : String) (wanted : List (String × Datum)) : List Edge → Program Unit
  | [] => pure ()
  | e :: rest => do
    let clause := propertyOf "clause" e.properties
    let target := propertyOf "path" e.target
    if !(← ofExcept (isWanted wanted clause target)) then
      let _ ← deleteImport path target clause
    deleteStaleImports path wanted rest

/-- Brings the imports of a file up to date; answers with the number of imports written. -/
def syncImports (path : String) (imports : List Import) : Program Nat := do
  let merged ← mergeImports path imports
  match ← (request (.findRelationships importsFrom fileLabel (fileKey (.text path)) none)).attempt with
  | .ok existing =>
    deleteStaleImports path (imports.map fun i ↦ (i.clause, .text i.source)) existing
    pure merged
  | .error (.graphQuery m c) =>
    report writerName
      s!"Could not list imports of {path}, keeping old edges: {(Fault.graphQuery m c).text}"
    pure merged
  | .error e => .fail e

end CodeAtlas.Indexing
