import CodeAtlas.Graph.Store
import CodeAtlas.Service.Http
import CodeAtlas.Service.Tools
import CodeAtlas.Text.Digest
import CodeAtlas.Watch.Reindex
import CodeAtlas.Watch.Watcher

/-!
# Rehearsals

A rehearsal runs the whole service without a network. The graph is kept in a document or in memory;
the language model, the embedding service and graph queries answer from scripts, and when a script
has come to its end they answer in a fixed way. Records are kept in a list and found in its order.
Any operation of the stores can be made to fail, and the clock moves only when it is told to.
-/

namespace CodeAtlas

/-- The operations that can be made to fail. -/
inductive Operation where
  | mergeNode | mergeRelationship | findRelationships | deleteRelationship | expandCalls
  | graphStats | flushGraph
  | findRecord | hasRecord | storeRecord | nearest | recordStats
  deriving DecidableEq, Repr

namespace Operation

def name : Operation → String
  | mergeNode => "merge_node"
  | mergeRelationship => "merge_relationship"
  | findRelationships => "find_relationships"
  | deleteRelationship => "delete_relationship"
  | expandCalls => "expand_calls"
  | graphStats => "get_database_stats"
  | flushGraph => "flush"
  | findRecord => "get"
  | hasRecord => "exists"
  | storeRecord => "upsert"
  | nearest => "similarity_search"
  | recordStats => "get_collection_stats"

def all : List Operation :=
  [mergeNode, mergeRelationship, findRelationships, deleteRelationship, expandCalls, graphStats,
    flushGraph, findRecord, hasRecord, storeRecord, nearest, recordStats]

def named? (name : String) : Option Operation := all.find? fun o ↦ o.name == name

end Operation

/-- An operation fails, always or where its arguments contain a text. -/
structure Refusal where
  operation : Operation
  fault : Fault
  within : Option String

/-- What a watcher does about a change. -/
inductive ChangeHandler where
  | reindex
  /-- The path is written down; then there may be a failure. -/
  | record (fault : Option Fault)

/-- How far the task is that processes the queue. -/
inductive Scheduler where
  | off
  /-- It has been started and makes its first move at the next opportunity. -/
  | fresh
  | asleep (until_ : Float)

def Scheduler.isRunning : Scheduler → Bool
  | off => false
  | _ => true

structure Watching where
  rules : WatchRules
  debounce : Float
  handler : ChangeHandler
  watcher : Watcher Float

structure Rehearsal where
  settings : Settings
  files : FileTree
  /-- The path of the graph's document; without one the graph is in memory only. -/
  document : Option String
  store : Store
  queue : Queue
  scheduler : Scheduler
  records : List FunctionRecord
  /-- Similarities of the records that are found, in order. -/
  scores : List Number
  /-- What the language model will say. -/
  replies : List (Except Fault String)
  /-- How many replies have been asked for. -/
  replyCount : Nat
  vectors : List (Except Fault (List Number))
  answers : List (Except Fault (List Record))
  refusals : List Refusal
  /-- Prompts for the language model. -/
  prompts : List String
  embedded : List String
  executed : List String
  searches : List (List Number × Int)
  notices : List Notice
  watching : Option Watching
  /-- Changed paths that have been written down. -/
  changes : List String
  clock : Float
  canSearch : Bool
  canAnswer : Bool
  /-- Does the running HTTP service have to close the stores when it ends? -/
  ownsStores : Bool

namespace Rehearsal

/-- A rehearsal in which nothing has happened. -/
def new (settings : Settings) (files : FileTree) : Rehearsal where
  settings
  files
  document := none
  store := .empty
  queue := .empty settings.enrichmentQueueMaxsize
  scheduler := .off
  records := []
  scores := []
  replies := []
  replyCount := 0
  vectors := []
  answers := []
  refusals := []
  prompts := []
  embedded := []
  executed := []
  searches := []
  notices := []
  watching := none
  changes := []
  clock := 0.0
  canSearch := true
  canAnswer := true
  ownsStores := false

def queryRules (r : Rehearsal) : QueryRules :=
  { QueryRules.ofSettings r.settings with canSearch := r.canSearch, canAnswer := r.canAnswer }

def indexRules (r : Rehearsal) : Indexing.IndexRules := .ofSettings r.settings true

/-! ## The document -/

def storeName : String := "json_graph_client"

def notice (isError : Bool) (source text : String) (r : Rehearsal) : Rehearsal :=
  { r with notices := r.notices ++ [⟨isError, source, text⟩] }

/-- Opens the store anew: it holds what its document holds. What is there and cannot be read as a
document is reported. -/
def openStore (r : Rehearsal) : Rehearsal :=
  let unread (why : String) : Rehearsal :=
    { r with store := .empty }.notice true storeName s!"Error loading graph data: {why}"
  match r.document with
  | none => { r with store := .empty }
  | some path =>
    match r.files.read path with
    | .error why =>
      if r.files.isThere path then unread (why.message path) else { r with store := .empty }
    | .ok content =>
      match (String.fromUTF8? content).bind Store.load? with
      | some store => { r with store }
      | none => unread "the file holds no document"

/-- Puts a document at a path, or says why it cannot. -/
def writeDocument (path : String) (files : FileTree) (text : String) : Except String FileTree :=
  match files.writeFault? path with
  | some e => .error (e.message path)
  | none => .ok (files.write path text.toUTF8)

/-- An attempt to write the document, and whether it has been written. A store without a document has
nothing to do. -/
def trySave (r : Rehearsal) : Rehearsal × Bool :=
  match r.document with
  | none => ({ r with store := { r.store with dirty := false } }, true)
  | some path =>
    match r.store.saveThrough (Datum.floatText r.clock) (writeDocument path r.files) with
    | (store, .ok files) => ({ r with store, files }, true)
    | (store, .error why) =>
      ({ r with store }.notice true storeName s!"Error saving graph data: {why}", false)

def saveStore (r : Rehearsal) : Rehearsal := r.trySave.1

/-- A save concerns the store, the files and the log only. -/
theorem saveStore_eq (r : Rehearsal) : r.saveStore =
    { r with
      store := r.saveStore.store, files := r.saveStore.files, notices := r.saveStore.notices } := by
  rw [saveStore, trySave]
  cases r.document with
  | none => rfl
  | some path =>
    dsimp only
    split <;> rfl

theorem saveStore_of_none {r : Rehearsal} (h : r.document = none) :
    r.saveStore = { r with store := { r.store with dirty := false } } := by
  rw [saveStore, trySave, h]

/-- The store after a save is that of an attempt to write the document. -/
theorem store_saveStore {r : Rehearsal} {path : String} (h : r.document = some path) :
    r.saveStore.store =
      (r.store.saveThrough (Datum.floatText r.clock) (writeDocument path r.files)).1 := by
  rw [saveStore, trySave, h]
  dsimp only
  split <;>
  · rename_i hsave
    simp only [hsave, notice]

/-- Removes everything from the graph. -/
def clearStore (r : Rehearsal) : Rehearsal :=
  { r with store := r.store.clear }.saveStore

/-- Starts over with a new store and a new queue. -/
def reload (r : Rehearsal) : Rehearsal :=
  { r with
    queue := .empty r.settings.enrichmentQueueMaxsize
    scheduler := .off
    executed := [] }.openStore

end Rehearsal

end CodeAtlas
