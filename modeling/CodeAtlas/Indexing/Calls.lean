import CodeAtlas.Indexing.Writer

/-!
# Linking calls to functions

A call is linked if its name was imported: it leads to the function of that name in the file that
the first such import points at. A name that was not imported is linked to the function of that name
in the same file, if that is asked for. Calls found in the graph that are not wanted any more are
deleted.
-/

namespace CodeAtlas.Indexing

open CodeAtlas.Graph Program
open Syntax (Function Outline)

def resolverName : String := "call_resolver"

/-- The file that the first import of a name points at. -/
def findCalleePath (callerPath calleeName : String) : Program (Option Datum) := do
  let lookup := request (.findRelationships importsFrom fileLabel (fileKey (.text callerPath))
    (some [("clause", .text calleeName)]))
  match ← lookup.attempt with
  | .ok [] => pure none
  | .ok (e :: _) =>
    match propertyOf "path" e.target with
    | .null => pure none
    | d => pure (some d)
  | .error (.graphQuery m c) =>
    report resolverName
      s!"Could not look up import of {calleeName} in {callerPath}: {(Fault.graphQuery m c).text}"
    pure none
  | .error e => .fail e

/-- Links the calls of a function one by one; answers with the wanted targets and the number of
calls written. -/
def linkCalls (linkLocal : Bool) (f : Function) (localNames : List String) :
    List String → Program (List (String × Datum) × Nat)
  | [] => pure ([], 0)
  | callee :: rest => do
    let found ← findCalleePath f.path callee
    let path := match found with
      | some d => some d
      | none => if linkLocal && localNames.contains callee then some (.text f.path) else none
    match path with
    | none => linkCalls linkLocal f localNames rest
    | some path =>
      ofExcept (checkComparable path)
      let written ← mergeCall f.name f.path callee path
      let (wanted, count) ← linkCalls linkLocal f localNames rest
      pure ((callee, path) :: wanted, if written then count + 1 else count)

/-- Deletes the calls found in the graph that the function does not make any more. -/
def deleteStaleCalls (f : Function) (wanted : List (String × Datum)) : List Edge → Program Unit
  | [] => pure ()
  | e :: rest => do
    let name := propertyOf "name" e.target
    let path := propertyOf "path" e.target
    if !(← ofExcept (isWanted wanted name path)) then
      let _ ← deleteCall f.name f.path name path
    deleteStaleCalls f wanted rest

/-- Brings the calls of one function up to date; answers with the number of calls written. -/
def resolveFunction (linkLocal : Bool) (f : Function) (localNames : List String) : Program Nat := do
  let (wanted, merged) ← linkCalls linkLocal f localNames f.calls
  let lookup := request (.findRelationships calls functionLabel
    (functionKey (.text f.name) (.text f.path)) none)
  match ← lookup.attempt with
  | .ok existing =>
    deleteStaleCalls f wanted existing
    pure merged
  | .error (.graphQuery m c) =>
    report resolverName s!"Could not list calls of {f.name} ({f.path}): {(Fault.graphQuery m c).text}"
    pure merged
  | .error e => .fail e

/-- Resolves functions in order and adds up the calls written. -/
def resolveFunctions (linkLocal : Bool) (localNames : List String) : List Function → Program Nat
  | [] => pure 0
  | f :: rest => do
    let count ← resolveFunction linkLocal f localNames
    pure (count + (← resolveFunctions linkLocal localNames rest))

/-- Brings the calls of every function of a file up to date. -/
def resolveFile (linkLocal : Bool) (functions : List Function) : Program Nat :=
  resolveFunctions linkLocal (functions.map (·.name)) functions

end CodeAtlas.Indexing
