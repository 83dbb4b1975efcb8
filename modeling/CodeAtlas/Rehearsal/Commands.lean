import CodeAtlas.CommandLine.Arguments
import CodeAtlas.CommandLine.Index
import CodeAtlas.Rehearsal.Steps
import CodeAtlas.Service.Assembly

/-!
# Rehearsing a command line

The index command with the stores and services of a rehearsal. The commands that never end, and a
graph in a database, are out of reach for it.
-/

namespace CodeAtlas.Rehearsal

open CommandLine

/-- Works with a store that is set up before and saved afterwards, whatever happens in between. -/
def withStores (work : Program Unit) : Effect Rehearsal Unit := do
  let _ ← look fun r ↦ r.store.nodeCount
  let result ← (perform work).attempt
  close
  ofExcept result

def outOfReach (what : String) : Fault := .outside .unavailable s!"{what} is out of reach"

/-- Indexes a directory. With enrichment the services have to be put together first, which fails if
there is a fault for it. -/
def index (root : String) (enriches : Bool) (fault : Option Fault) : Effect Rehearsal Unit := do
  if enriches then
    match fault with
    | some e => throw e
    | none => pure ()
    modify openStore
    let r ← getThe Rehearsal
    withStores (indexAndEnrich r.indexRules r.settings.maxCodeLength r.files root)
  else
    match ← look fun r ↦ GraphBackend.choose none r.settings with
    | .database => throw (outOfReach "the database")
    | .document =>
      modify openStore
      let r ← getThe Rehearsal
      withStores (indexOnly (.ofSettings r.settings false) r.files root)

/-- Executes a command. -/
def execute (c : Command) (fault : Option Fault) : Effect Rehearsal Unit :=
  match c with
  | .index root enriches => index root enriches fault
  | c => throw (outOfReach c.name)

/-- What a command line came to. -/
structure CommandOutcome where
  exitCode : Nat
  /-- Have the services been put together? -/
  built : Bool

/-- Reads a command line and executes its command. A failure is reported. -/
def runCommandLine (words : List String) (fault : Option Fault) (r : Rehearsal) :
    CommandOutcome × Rehearsal :=
  match Arguments.ofWords r.settings words with
  | .error stop => (⟨stop.exitCode, false⟩, r)
  | .ok arguments =>
    let backend := (arguments.graphBackend).getD r.settings.graphBackend
    let r := { r with settings := { r.settings with graphBackend := backend } }
    let built := match arguments.command with
      | .index _ enriches => enriches && fault.isNone
      | _ => false
    match (execute arguments.command fault).run r with
    | (.ok (), r) => (⟨0, built⟩, r)
    | (.error e, r) =>
      (⟨1, built⟩, r.notice true commandName (failureText arguments.command.name e))

end CodeAtlas.Rehearsal
