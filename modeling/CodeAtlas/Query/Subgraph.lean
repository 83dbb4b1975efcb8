import CodeAtlas.Program

/-!
# The part of the graph that an answer shows

Nodes and relationships may stand anywhere in the records of an answer: alone, on a path, in lists
and maps. The subgraph of an answer holds each of them once, in the order of first occurrence, as
far as their labels and types are wanted.
-/

namespace CodeAtlas

structure Subgraph where
  nodes : List Node
  relationships : List Relationship
  deriving Inhabited

namespace Subgraph

def toDatum (s : Subgraph) : Datum :=
  .map [("nodes", .list (s.nodes.map Node.toDatum)),
    ("relationships", .list (s.relationships.map Relationship.toDatum))]

/-- What is wanted; nothing named means that everything is. -/
structure Filter where
  labels : List String
  types : List String

def Filter.everything : Filter := ⟨[], []⟩

def Filter.wantsNode (f : Filter) (n : Node) : Bool :=
  f.labels.isEmpty || n.labels.any f.labels.contains

def Filter.wantsRelationship (f : Filter) (r : Relationship) : Bool :=
  f.types.isEmpty || f.types.contains r.type

/-- Adds a node unless it is not wanted or there already. -/
def addNode (f : Filter) (s : Subgraph) (n : Node) : Subgraph :=
  if s.nodes.any (fun m ↦ m.id == n.id) || !f.wantsNode n then s
  else { s with nodes := s.nodes ++ [n] }

def addRelationship (f : Filter) (s : Subgraph) (r : Relationship) : Subgraph :=
  if s.relationships.any (fun q ↦ q.id == r.id) || !f.wantsRelationship r then s
  else { s with relationships := s.relationships ++ [r] }

mutual

/-- Adds what a value holds. -/
def visit (f : Filter) (s : Subgraph) : Value → Subgraph
  | .plain _ => s
  | .node n => s.addNode f n
  | .relationship r => s.addRelationship f r
  | .path nodes rels => rels.foldl (addRelationship f) (nodes.foldl (addNode f) s)
  | .list items => visitAll f s items
  | .tuple items => visitAll f s items
  | .map entries => visitEntries f s entries

def visitAll (f : Filter) (s : Subgraph) : List Value → Subgraph
  | [] => s
  | v :: rest => visitAll f (visit f s v) rest

def visitEntries (f : Filter) (s : Subgraph) : List (String × Value) → Subgraph
  | [] => s
  | (_, v) :: rest => visitEntries f (visit f s v) rest

end

/-- The subgraph of the given values. -/
def ofValues (f : Filter) (values : List Value) : Subgraph := visitAll f ⟨[], []⟩ values

/-- The subgraph of the records of an answer. -/
def ofRecords (f : Filter) (records : List Record) : Subgraph := ofValues f (records.map .map)

end Subgraph

/-- The functions that call a function, and the functions it calls. -/
structure CallContext where
  callers : List Node
  callees : List Node

instance : ToDatum CallContext :=
  ⟨fun c ↦ .map [("callers", ToDatum.toDatum c.callers), ("callees", ToDatum.toDatum c.callees)]⟩

namespace CallContext

def ofRecords (functionId : String) (records : List CallRecord) : CallContext where
  callers := (Subgraph.ofValues .everything
    ((records.filter fun r ↦ r.target.id == functionId).map fun r ↦ .node r.source)).nodes
  callees := (Subgraph.ofValues .everything
    ((records.filter fun r ↦ r.source.id == functionId).map fun r ↦ .node r.target)).nodes

/-- Asks the graph for the context of a function. -/
def find (functionId : String) : Program CallContext := do
  pure (ofRecords functionId (← Program.request (.expandCalls functionId)))

end CallContext

end CodeAtlas
