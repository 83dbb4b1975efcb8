import CodeAtlas.Datum

/-!
# Nodes, relationships and query values

A node carries labels and properties, a relationship a type and properties, and each has an id of
its own. The answer to a graph query is a list of records whose values are plain data, nodes,
relationships, paths, and collections of these.
-/

namespace CodeAtlas

structure Node where
  id : String
  labels : List String
  properties : Props
  deriving Inhabited

structure Relationship where
  id : String
  type : String
  sourceId : String
  targetId : String
  properties : Props
  deriving Inhabited

namespace Node

def toDatum (n : Node) : Datum :=
  .map [("id", .text n.id), ("labels", .list (n.labels.map .text)), ("properties", .map n.properties)]

/-- The value of a property; a property that is not there is null. -/
def property (n : Node) (key : String) : Datum := (Props.get? key n.properties).getD .null

instance : ToDatum Node := ⟨toDatum⟩

end Node

def Relationship.toDatum (r : Relationship) : Datum :=
  .map [("id", .text r.id), ("type", .text r.type), ("source_id", .text r.sourceId),
    ("target_id", .text r.targetId), ("properties", .map r.properties)]

instance : ToDatum Relationship := ⟨Relationship.toDatum⟩

/-- A value in the answer to a graph query. -/
inductive Value where
  | plain (d : Datum)
  | node (n : Node)
  | relationship (r : Relationship)
  | path (nodes : List Node) (relationships : List Relationship)
  | list (items : List Value)
  | tuple (items : List Value)
  | map (entries : List (String × Value))
  deriving Inhabited

namespace Value

/-- Is there anything in the value? -/
def truthy : Value → Bool
  | plain d => d.truthy
  | list items | tuple items => !items.isEmpty
  | map entries => !entries.isEmpty
  | node _ | relationship _ | path .. => true

mutual

/-- The value with the forms of nodes, relationships and paths in it. -/
def toDatum : Value → Datum
  | plain d => d
  | node n => n.toDatum
  | relationship r => r.toDatum
  | path nodes relationships =>
    .map [("path", .list [ToDatum.toDatum nodes, ToDatum.toDatum relationships])]
  | list items | tuple items => .list (itemsToDatum items)
  | map entries => .map (entriesToDatum entries)

def itemsToDatum : List Value → List Datum
  | [] => []
  | v :: rest => toDatum v :: itemsToDatum rest

def entriesToDatum : List (String × Value) → Props
  | [] => []
  | (key, v) :: rest => (key, toDatum v) :: entriesToDatum rest

end

instance : ToDatum Value := ⟨toDatum⟩

end Value

/-- One row of an answer. -/
abbrev Record := List (String × Value)

namespace Graph

/-! ## The code graph's own labels and types -/

def fileLabel : String := "File"

def functionLabel : String := "Function"

/-- From a file to a file it imports a name from. -/
def importsFrom : String := "IMPORTS_FROM"

/-- From a function to a function it calls. -/
def calls : String := "CALLS"

def fileKey (path : Datum) : Props := [("path", path)]

def functionKey (name path : Datum) : Props := [("name", name), ("path", path)]

end Graph

end CodeAtlas
