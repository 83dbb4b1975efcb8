import CodeAtlas.Enrichment.Process
import CodeAtlas.Indexing.Calls

/-!
# Registering files

A file is registered by writing its node, bringing its imports up to date, writing and queueing its
functions, and bringing their calls up to date. A file without an outline leaves everything as it
is. Where registering a whole directory, nothing that goes wrong with one file stops the others.
-/

namespace CodeAtlas.Indexing

open Program
open Syntax (Function Outline)

def indexerName : String := "indexer"

/-- What a registration does apart from writing the graph. -/
structure RegistrationRules where
  /-- Link calls within a file. -/
  linkLocal : Bool
  /-- Queue functions for enrichment. -/
  enriches : Bool
  /-- Queue functions that have a record already. -/
  reparse : Bool

/-- What registering a file came to. -/
structure Registration where
  path : String
  imports : Nat
  functions : Nat
  calls : Nat
  enqueued : Nat
  deriving DecidableEq, Repr

namespace Registration

def toDatum (r : Registration) : Datum :=
  .map [("path", .text r.path), ("imports", .int r.imports), ("functions", .int r.functions),
    ("calls", .int r.calls), ("enqueued", .int r.enqueued)]

instance : ToDatum Registration := ⟨toDatum⟩

end Registration

/-- Does the function still need a record? If that cannot be found out, it does. -/
def needsEnrichment (rules : RegistrationRules) (functionId : String) : Program Bool := do
  if rules.reparse then pure true
  else
    match ← (request (.hasRecord functionId)).attempt with
    | .ok found => pure !found
    | .error (.storage m c) =>
      warn indexerName
        s!"Could not check record for {functionId}, queueing anyway: {(Fault.storage m c).text}"
      pure true
    | .error e => .fail e

def itemOf (functionId : String) (f : Function) : Item :=
  { functionId, name := f.name, path := f.path, code := f.text
    startLine := f.startLine, endLine := f.endLine }

/-- Writes a function and queues it if it needs a record; answers whether it was queued. -/
def registerFunction (rules : RegistrationRules) (f : Function) : Program Bool := do
  match ← mergeFunction f.name f.path with
  | none => pure false
  | some id =>
    if !rules.enriches then pure false
    else if ← needsEnrichment rules id then Enrichment.offer (itemOf id f) rules.reparse
    else pure false

/-- Registers functions in order and counts those that were queued. -/
def registerFunctions (rules : RegistrationRules) : List Function → Program Nat
  | [] => pure 0
  | f :: rest => do
    let queued ← registerFunction rules f
    let count ← registerFunctions rules rest
    pure (if queued then count + 1 else count)

/-- Writes all that an outline holds. -/
def registerOutline (rules : RegistrationRules) (o : Outline) : Program Registration := do
  let _ ← mergeFile o.path
  let imports ← syncImports o.path o.imports
  let enqueued ← registerFunctions rules o.functions
  let calls ← resolveFile rules.linkLocal o.functions
  pure { path := o.path, imports, functions := o.functions.length, calls, enqueued }

/-- Registers a file that was read with the given outcome. -/
def registerFile (rules : RegistrationRules) (outline : Except Fault Outline) :
    Program (Option Registration) := do
  match outline with
  | .error (.source path why) =>
    warn indexerName s!"Skipping file: {(Fault.source path why).text}"
    pure none
  | .error e => .fail e
  | .ok o =>
    match ← (registerOutline rules o).attempt with
    | .ok r => pure (some r)
    | .error e =>
      if e.isStaged then
        report indexerName s!"Failed to register {o.path}: {e.text}"
        pure none
      else .fail e

/-- Registers one file of a directory; whatever goes wrong is reported. -/
def registerListed (rules : RegistrationRules) (path : String) (outline : Except Fault Outline) :
    Program (Option Registration) := do
  match ← (registerFile rules outline).attempt with
  | .ok r => pure r
  | .error e =>
    report indexerName s!"Unexpected error registering {path}: {e.text}"
    pure none

def registerAll (rules : RegistrationRules) :
    List (String × Except Fault Outline) → Program (List Registration)
  | [] => pure []
  | (path, outline) :: rest => do
    let r ← registerListed rules path outline
    pure (r.toList ++ (← registerAll rules rest))

/-- Registers the files of a directory and saves the graph. -/
def registerDirectory (rules : RegistrationRules)
    (files : List (String × Except Fault Outline)) : Program (List Registration) := do
  let registrations ← registerAll rules files
  request .flushGraph
  pure registrations

end CodeAtlas.Indexing
