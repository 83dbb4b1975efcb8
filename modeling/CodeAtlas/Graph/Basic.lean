import CodeAtlas.Fault
import CodeAtlas.Graph.Element
import CodeAtlas.Json.Writer

/-!
# The labelled graph

Nodes and relationships in the order of their insertion. An element's id is a digest of what the
element is: a node's of its label and key, a relationship's of its type, its two ends and its
properties. Merging is therefore adding what is not there yet, and merging twice is merging once.

The digest is a parameter. All that matters of it is whether two different texts can have the same
one.
-/

namespace CodeAtlas

/-- What turns the text of an element into its id. -/
abbrev Digest := String → String

structure Graph where
  nodes : List Node
  relationships : List Relationship
  deriving Inhabited

/-- A relationship as it is seen from its source. -/
structure Edge where
  target : Props
  properties : Props

instance : ToDatum Edge := ⟨fun e ↦ .map [("target", .map e.target), ("properties", .map e.properties)]⟩

/-- A call with both functions. -/
structure CallRecord where
  source : Node
  relationship : Relationship
  target : Node

instance : ToDatum CallRecord := ⟨fun c ↦ .map [("source", c.source.toDatum),
  ("relationship", c.relationship.toDatum), ("target", c.target.toDatum)]⟩

/-- How many nodes there are of each label and relationships of each type, in the order in which
they first occur. -/
structure GraphStats where
  nodes : List (String × Nat)
  relationships : List (String × Nat)

namespace GraphStats

def countsDatum (counts : List (String × Nat)) : Datum := .map (counts.map fun (k, n) ↦ (k, .int n))

def toDatum (s : GraphStats) : Datum :=
  .map [("nodes", countsDatum s.nodes), ("relationships", countsDatum s.relationships)]

instance : ToDatum GraphStats := ⟨toDatum⟩

end GraphStats

namespace Graph

def empty : Graph := ⟨[], []⟩

/-! ## Ids -/

/-- The text whose digest is the id of the element with these parts. -/
def idText (parts : List Datum) : String := Json.write .canonical (.list parts)

def elementId (digest : Digest) (parts : List Datum) : String := digest (idText parts)

def nodeId (digest : Digest) (label : String) (key : Props) : String :=
  elementId digest [.text label, .map key]

def relationshipId (digest : Digest) (type sourceId targetId : String) (attrs : Props) : String :=
  elementId digest [.text type, .text sourceId, .text targetId, .map attrs]

/-- A value that has no written form has no id either. -/
def noWrittenForm : Fault :=
  .mismatch (.wrongType "Object of type date is not JSON serializable")

/-- Succeeds if all the given properties can be written. -/
def checkWritable (parts : List Props) : Except Fault Unit :=
  if parts.all fun p ↦ Json.isWritable (.map p) then .ok () else .error noWrittenForm

/-! ## Looking up -/

def node? (g : Graph) (id : String) : Option Node := g.nodes.find? fun n ↦ n.id == id

def relationship? (g : Graph) (id : String) : Option Relationship :=
  g.relationships.find? fun r ↦ r.id == id

/-- Do the properties include every item of `attrs`? -/
def includes (properties attrs : Props) : Bool :=
  attrs.all fun (k, v) ↦ ((Props.get? k properties).getD .null).same v

/-- A node that has to be there, because a relationship ends at it. -/
def endNode (g : Graph) (id : String) : Except Fault Node :=
  match g.node? id with
  | some n => .ok n
  | none => .error (.mismatch (.noEntry id))

/-- The relationships of a type that leave a node and have the given attributes. -/
def outgoing (g : Graph) (type sourceId : String) (attrs : Props) : List Relationship :=
  g.relationships.filter fun r ↦
    r.type == type && r.sourceId == sourceId && includes r.properties attrs

def edgeOf (g : Graph) (r : Relationship) : Except Fault Edge := do
  pure ⟨(← g.endNode r.targetId).properties, r.properties⟩

/-- The relationships of a type that leave the node with a key. -/
def findRelationships (digest : Digest) (type fromLabel : String) (fromKey attrs : Props)
    (g : Graph) : Except Fault (List Edge) :=
  (g.outgoing type (nodeId digest fromLabel fromKey) attrs).mapM g.edgeOf

def callRecord (g : Graph) (r : Relationship) : Except Fault CallRecord := do
  pure ⟨← g.endNode r.sourceId, r, ← g.endNode r.targetId⟩

/-- The calls that a function makes or receives. -/
def expandCalls (functionId : String) (g : Graph) : Except Fault (List CallRecord) :=
  (g.relationships.filter fun r ↦
    r.type == calls && (r.sourceId == functionId || r.targetId == functionId)).mapM g.callRecord

/-- All relationships, or those of one type. -/
def allRelationships (type : Option String) (g : Graph) : List Relationship :=
  g.relationships.filter fun r ↦ match type with
    | some t => r.type == t
    | none => true

def functionNodes (g : Graph) : List Node := g.nodes.filter fun n ↦ n.labels.contains functionLabel

/-- How often each text occurs, in the order of first occurrence. -/
def tally (texts : List String) : List (String × Nat) :=
  texts.foldl (fun counts t ↦ Props.insert t ((Props.get? t counts).getD 0 + 1) counts) []

def stats (g : Graph) : GraphStats where
  nodes := tally (g.nodes.flatMap (·.labels))
  relationships := tally (g.relationships.map (·.type))

/-! ## Changing -/

def addNode (n : Node) (g : Graph) : Graph :=
  if (g.node? n.id).isSome then g else { g with nodes := g.nodes ++ [n] }

def addRelationship (r : Relationship) (g : Graph) : Graph :=
  if (g.relationship? r.id).isSome then g else { g with relationships := g.relationships ++ [r] }

/-- The node that a label and a key stand for. -/
def keyNode (digest : Digest) (label : String) (key : Props) : Node :=
  ⟨nodeId digest label key, [label], key⟩

/-- The relationship between two keys. -/
def keyRelationship (digest : Digest) (type fromLabel : String) (fromKey : Props) (toLabel : String)
    (toKey attrs : Props) : Relationship :=
  let source := nodeId digest fromLabel fromKey
  let target := nodeId digest toLabel toKey
  ⟨relationshipId digest type source target attrs, type, source, target, attrs⟩

def mergeNode (digest : Digest) (label : String) (key : Props) (g : Graph) : Graph :=
  g.addNode (keyNode digest label key)

/-- Adds a relationship together with its ends. -/
def mergeRelationship (digest : Digest) (type fromLabel : String) (fromKey : Props)
    (toLabel : String) (toKey attrs : Props) (g : Graph) : Graph :=
  ((g.mergeNode digest fromLabel fromKey).mergeNode digest toLabel toKey).addRelationship
    (keyRelationship digest type fromLabel fromKey toLabel toKey attrs)

/-- Is it a relationship of the type between the two nodes with the given attributes? -/
def isBetween (type sourceId targetId : String) (attrs : Props) (r : Relationship) : Bool :=
  r.type == type && r.sourceId == sourceId && r.targetId == targetId && includes r.properties attrs

/-- Removes the relationships of a type between two keys; answers with their number. -/
def deleteRelationship (digest : Digest) (type fromLabel : String) (fromKey : Props)
    (toLabel : String) (toKey attrs : Props) (g : Graph) : Graph × Nat :=
  let doomed := isBetween type (nodeId digest fromLabel fromKey) (nodeId digest toLabel toKey) attrs
  ({ g with relationships := g.relationships.filter fun r ↦ !doomed r }, g.relationships.countP doomed)

end Graph

end CodeAtlas
