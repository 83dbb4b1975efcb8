import CodeAtlas.Json.Reader
import CodeAtlas.Records.VectorStore

/-!
# A collection in memory

A vector database that keeps its rows in a list, in the order in which their ids were first stored.
It writes down what it is asked and can be made to fail. A search finds the first rows.
-/

namespace CodeAtlas.Records

/-- What the database is asked apart from its collection. -/
inductive ServiceCall where
  | connect (host : String) (port : Int)
  | disconnect
  | hasCollection (name : String)

/-- The kinds of calls that can be made to fail. -/
inductive CallKind where
  | connect | disconnect | hasCollection
  | createIndex | load | upsert | flush | query | search | count
  deriving DecidableEq, Repr

structure MemoryCollection where
  /-- Is there a collection from the beginning? -/
  isThere : Bool
  schema : Option (List Column)
  rows : List Row
  faults : List (CallKind × Fault)
  calls : List ServiceCall
  /-- What the collection has been asked. -/
  log : List CollectionCall
  notices : List Notice

/-- A call as its name and its arguments; a connection has a name of its own. -/
def ServiceCall.toDatum : ServiceCall → Datum
  | connect host port => .list [.text "connect", .text "default", .text host, .int port]
  | disconnect => .list [.text "disconnect", .text "default"]
  | hasCollection name => .list [.text "has_collection", .text name]

instance : ToDatum ServiceCall := ⟨ServiceCall.toDatum⟩

def CallKind.name : CallKind → String
  | connect => "connect"
  | disconnect => "disconnect"
  | hasCollection => "has_collection"
  | createIndex => "create_index"
  | load => "load"
  | upsert => "upsert"
  | flush => "flush"
  | query => "query"
  | search => "search"
  | count => "num_entities"

def CallKind.all : List CallKind :=
  [connect, disconnect, hasCollection, createIndex, load, upsert, flush, query, search, count]

def CallKind.named? (name : String) : Option CallKind := all.find? fun k ↦ k.name == name

def CollectionCall.kind : CollectionCall → CallKind
  | createIndex .. => .createIndex
  | load => .load
  | upsert _ => .upsert
  | flush => .flush
  | query .. => .query
  | search .. => .search
  | count => .count

namespace MemoryCollection

def new (isThere : Bool) (faults : List (CallKind × Fault)) : MemoryCollection :=
  ⟨isThere, none, [], faults, [], [], []⟩

/-- From now on a call fails. -/
def refuse (kind : CallKind) (fault : Fault) (m : MemoryCollection) : MemoryCollection :=
  { m with faults := (kind, fault) :: m.faults }

instance : ToDatum Row := ⟨fun r ↦ .map
  [("id", .text r.id), ("name", .text r.name), ("path", .text r.path), ("code", .text r.code),
    ("summary", .text r.summary), ("start_line", .int r.startLine), ("end_line", .int r.endLine),
    ("embedding", ToDatum.toDatum r.embedding)]⟩

/-- Forgets what has been asked and said so far. -/
def forget (m : MemoryCollection) : MemoryCollection := { m with log := [], notices := [] }

/-- Replaces the row with the same id, or adds the row. -/
def putRow (row : Row) : List Row → List Row
  | [] => [row]
  | r :: rest => if r.id == row.id then row :: rest else r :: putRow row rest

/-- The id that an expression asks for. -/
def askedId? (expression : String) : Option String :=
  let start := idStart.toList
  if start.isPrefixOf expression.toList then
    match Json.read (String.ofList (expression.toList.drop start.length)) with
    | .ok (.text id) => some id
    | _ => none
  else none

/-- The rows for which an expression holds. -/
def matching (expression : String) (rows : List Row) : List Row :=
  match askedId? expression with
  | some id => (rows.find? fun r ↦ r.id == id).toList
  | none => []

/-- The first rows, each a little less similar than the one before. -/
def firstRows (limit : Int) (rows : List Row) : List (Row × Number) :=
  let found := Text.beginning limit rows
  (found.zip (List.range found.length)).map fun (row, place) ↦
    (row, .real (1.0 - 0.25 * Float.ofNat place))

def failIfRefused (kind : CallKind) : Effect MemoryCollection Unit := do
  match (← getThe MemoryCollection).faults.find? fun f ↦ f.1 == kind with
  | some (_, fault) => throw fault
  | none => pure ()

def noteCall (c : ServiceCall) : Effect MemoryCollection Unit :=
  modify fun m ↦ { m with calls := m.calls ++ [c] }

/-- Answers a call that does not fail. -/
def answer : (c : CollectionCall) → Effect MemoryCollection c.Reply
  | .createIndex .. | .load | .flush => pure ()
  | .upsert row => modify fun m ↦ { m with rows := putRow row m.rows }
  | .query expression _ => do pure (matching expression (← getThe MemoryCollection).rows)
  | .search _ _ _ limit _ => do pure (firstRows limit (← getThe MemoryCollection).rows)
  | .count => do pure (Int.ofNat (← getThe MemoryCollection).rows.length)

def service : VectorService MemoryCollection where
  connect host port := noteCall (.connect host port) *> failIfRefused .connect
  disconnect := noteCall .disconnect *> failIfRefused .disconnect
  hasCollection name := do
    noteCall (.hasCollection name)
    failIfRefused .hasCollection
    pure (← getThe MemoryCollection).isThere
  create _ columns := modify fun m ↦ { m with isThere := true, schema := some columns }
  call c := do
    modify fun m ↦ { m with log := m.log ++ [c] }
    failIfRefused c.kind
    answer c
  note n m := { m with notices := m.notices ++ [n] }

end MemoryCollection

end CodeAtlas.Records
