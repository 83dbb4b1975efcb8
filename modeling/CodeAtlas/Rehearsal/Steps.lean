import CodeAtlas.Effect
import CodeAtlas.Rehearsal.Clock

/-!
# Steps of a rehearsal

A rehearsal goes on in steps: a program is run, something is looked at, or something happens outside.
What a step has done stays done when it fails.
-/

namespace CodeAtlas.Rehearsal

variable {α : Type}

/-- Runs a program. -/
def perform (p : Program α) : Effect Rehearsal α := fun r ↦ r.run p

/-- Answers a request. -/
def ask (request : Request) : Effect Rehearsal request.Reply := perform (.request request)

/-- Looks at something. -/
def look (f : Rehearsal → Except Fault α) : Effect Rehearsal α := do ofExcept (f (← get))

/-- Takes a list away and leaves an empty one. -/
def collect (list : Rehearsal → List α) (without : Rehearsal → Rehearsal) :
    Effect Rehearsal (List α) := do
  let found := list (← get)
  modify without
  pure found

/-! ## The graph -/

def node? (label : String) (key : Props) (r : Rehearsal) : Except Fault (Option Node) :=
  r.store.getNode Text.Digest.ofText label key

/-- A relationship without ids: its type, the properties of its ends, and its own. -/
structure PlainEdge where
  type : String
  source : Props
  target : Props
  properties : Props

instance : ToDatum PlainEdge :=
  ⟨fun e ↦ .list [.text e.type, .map e.source, .map e.target, .map e.properties]⟩

/-- The properties of a node that has to be there. -/
def endProperties (r : Rehearsal) (id : String) : Except Fault Props := do
  match ← r.store.nodeById id with
  | some n => pure n.properties
  | none => .error (.mismatch (.noEntry id))

/-- All relationships, or those of a type. -/
def edges (type : Option String) (r : Rehearsal) : Except Fault (List PlainEdge) := do
  (← r.store.allRelationships type).mapM fun e ↦ do
    pure ⟨e.type, ← r.endProperties e.sourceId, ← r.endProperties e.targetId, e.properties⟩

/-- Everything in the graph. -/
def graph (r : Rehearsal) : Except Fault Graph := do
  pure ⟨← r.store.nodes, ← r.store.allRelationships none⟩

/-- Stops the queue and saves the graph. -/
def close : Effect Rehearsal Unit := do
  modify stopScheduler
  ask .flushGraph

/-! ## Tools and the HTTP service -/

def useTool (name : String) (arguments : Props) : Effect Rehearsal String := do
  let tool ← ofExcept (Tool.ofArguments name arguments)
  let r ← getThe Rehearsal
  perform (tool.run r.queryRules r.indexRules r.files)

/-- Starts the HTTP service. If it has made the stores itself, it sets them up and will close them. -/
def startService (enriches owns : Bool) : Effect Rehearsal Unit := do
  modify fun r ↦ { r with ownsStores := owns }
  if owns then
    let _ ← look fun r ↦ r.store.nodeCount
  if enriches then
    modify startScheduler

def stopService : Effect Rehearsal Unit := do
  let r ← getThe Rehearsal
  set { r.stopScheduler with ownsStores := false }
  if r.ownsStores then
    ask .flushGraph

/-! ## Files and watching -/

/-- What a file system tells of a path. -/
inductive FileEvent where
  | created (path : String)
  | modified (path : String)
  | moved (destination : String)
  /-- Of no concern. -/
  | other

/-- The path that a watcher is told of. -/
def FileEvent.path? : FileEvent → Option String
  | created path | modified path => some path
  | moved destination => some destination
  | other => none

/-- The watcher is told, and whatever is due happens before anything else does. -/
def fileEvent (e : FileEvent) (r : Rehearsal) : Rehearsal :=
  let r := match e.path? with
    | some path => r.notify path
    | none => r
  r.settleNow.passInstant

/-- Starts a watcher that writes changed paths down. -/
def watchRecording (root : String) (extensions patterns : List String) (debounce : Float)
    (fault : Option Fault) : Effect Rehearsal Unit := do
  let rules ← look fun r ↦ WatchRules.make r.files root extensions patterns
  modify (watch rules debounce (.record fault))

/-- Starts a watcher that registers changed files. -/
def watchRegistering (root : String) : Effect Rehearsal Unit := do
  set (← look fun r ↦ r.watchSources root)

/-- Would the watcher act on a change of the path? -/
def isWatched (path : String) (r : Rehearsal) : Bool :=
  match r.watching with
  | some w => w.rules.accepts path
  | none => false

/-- The paths whose changes the watcher has not acted on yet. -/
def pendingPaths (r : Rehearsal) : List String :=
  match r.watching with
  | some w => w.watcher.timers.map fun t ↦ t.path
  | none => []

end CodeAtlas.Rehearsal
