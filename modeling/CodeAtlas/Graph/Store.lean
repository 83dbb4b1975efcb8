import CodeAtlas.Graph.Damaged
import CodeAtlas.Json.Reader

/-!
# The graph in a document

The store keeps the graph in memory and writes it as one JSON document. A change marks the store as
dirty, and only a save that succeeds takes the mark away; a save that fails leaves the store as it
is, so that the next one tries again.

A document is stamped when it is saved, with the time of its first and of its last save. A document
without a place for the stamps cannot be saved.
-/

namespace CodeAtlas

/-- What the store holds: a graph and what else was in its document, or a document that is not written
as a graph is. -/
inductive Content where
  | graph (g : Graph) (metadata : Option Datum)
  | damaged (document : Datum)
  deriving Inhabited

structure Store where
  content : Content
  /-- Has something changed since the last save? -/
  dirty : Bool
  deriving Inhabited

namespace Content

/-- The stamps of a new document. -/
def newMetadata : Datum :=
  .map [("version", .text "1.0"), ("created_at", .null), ("updated_at", .null)]

def empty : Content := .graph .empty (some newMetadata)

/-! ## Documents -/

def nodeEntry (n : Node) : String × Datum :=
  (n.id, .map [("labels", .list (n.labels.map .text)), ("properties", .map n.properties)])

def relationshipEntry (r : Relationship) : String × Datum :=
  (r.id, .map [("type", .text r.type), ("source_id", .text r.sourceId),
    ("target_id", .text r.targetId), ("properties", .map r.properties)])

def toDatum : Content → Datum
  | graph g metadata =>
    .map ([("nodes", .map (g.nodes.map nodeEntry)),
        ("relationships", .map (g.relationships.map relationshipEntry))]
      ++ match metadata with
        | some m => [("metadata", m)]
        | none => [])
  | damaged document => document

def text? : Datum → Option String
  | .text s => some s
  | _ => none

def nodeOf? : String × Datum → Option Node
  | (id, .map [("labels", .list labels), ("properties", .map properties)]) => do
    pure ⟨id, ← labels.mapM text?, properties⟩
  | _ => none

def relationshipOf? : String × Datum → Option Relationship
  | (id, .map [("type", .text type), ("source_id", .text source), ("target_id", .text target),
      ("properties", .map properties)]) => some ⟨id, type, source, target, properties⟩
  | _ => none

/-- What else is in a document, given its last entries. -/
def metadata? : Props → Option (Option Datum)
  | [] => some none
  | [("metadata", m)] => some (some m)
  | _ => none

/-- The content of a document that has the shape in which a graph is written. -/
def graph? : Datum → Option Content
  | .map (("nodes", .map nodes) :: ("relationships", .map rels) :: rest) => do
    pure (.graph ⟨← nodes.mapM nodeOf?, ← rels.mapM relationshipOf?⟩ (← metadata? rest))
  | _ => none

def ofDatum (document : Datum) : Content := (graph? document).getD (.damaged document)

/-- Are the entries for nodes and relationships there, so that they can be counted? -/
def size? : Content → Option (Nat × Nat)
  | graph g _ => some (g.nodes.length, g.relationships.length)
  | damaged document =>
    match document.get? "nodes", document.get? "relationships" with
    | some (.map nodes), some (.map rels) => some (nodes.length, rels.length)
    | _, _ => none

/-! ## Stamps -/

/-- The metadata with the time of this save, and of the first one if it had none. -/
def stamped (now : String) (metadata : Datum) : Except Fault Datum := do
  let updated ← Lookup.put "updated_at" (.text now) metadata
  let created ← Lookup.field "created_at" updated
  if created.truthy then pure updated
  else Lookup.put "created_at" (.text now) updated

/-- The content as it is saved. -/
def stamp (now : String) : Content → Except Fault Content
  | graph g (some metadata) => do pure (.graph g (some (← stamped now metadata)))
  | graph _ none => .error (.mismatch (.noEntry "metadata"))
  | damaged document => do
    let metadata ← Lookup.field "metadata" document
    pure (.damaged (← Lookup.put "metadata" (← stamped now metadata) document))

end Content

namespace Store

/-- A store that holds nothing. -/
def empty : Store := ⟨.empty, false⟩

/-- Reads a document; `none` if the text is not one. -/
def load? (text : String) : Option Store :=
  match Json.read text with
  | .ok document => some ⟨.ofDatum document, false⟩
  | .error _ => none

/-- The text of a document, which is indented and keeps its characters. -/
def document (c : Content) : String := Json.write .file c.toDatum

/-- What a save does: the store afterwards, and the text to write. -/
def save (now : String) (s : Store) : Except Fault (Store × String) := do
  let content ← s.content.stamp now
  pure (⟨content, false⟩, document content)

/-- An attempt to save, where `write` puts the document in its place or says why it cannot. The stamps
are made first; the mark goes only when the document has been written. -/
def saveThrough {σ : Type} (now : String) (write : String → Except String σ) (s : Store) :
    Store × Except String σ :=
  match s.save now with
  | .error e => (s, .error e.text)
  | .ok (saved, text) =>
    match write text with
    | .ok written => (saved, .ok written)
    | .error why => ({ saved with dirty := s.dirty }, .error why)

/-! ## Operations on the content -/

variable (digest : Digest)

/-- Runs an operation that only looks. -/
def look {α : Type} (onGraph : Graph → Except Fault α) (onDocument : Datum → Except Fault α)
    (s : Store) : Except Fault α :=
  match s.content with
  | .graph g _ => onGraph g
  | .damaged document => onDocument document

/-- Adds a node to the content. -/
def addNode (n : Node) : Content → Except Fault Content
  | .graph g m => .ok (.graph (g.addNode n) m)
  | .damaged document => do pure (.damaged (← Graph.Damaged.mergeNode n document))

def addRelationship (r : Relationship) : Content → Except Fault Content
  | .graph g m => .ok (.graph (g.addRelationship r) m)
  | .damaged document => do pure (.damaged (← Graph.Damaged.mergeRelationship r document))

/-- Merges a node and answers with its id. -/
def mergeNode (label : String) (key : Props) (s : Store) : Except Fault (Store × String) := do
  Graph.checkWritable [key]
  let n := Graph.keyNode digest label key
  pure (⟨← addNode n s.content, true⟩, n.id)

/-- The store with a node added, not marked as changed. -/
def withNode (label : String) (key : Props) (s : Store) : Except Fault Store := do
  Graph.checkWritable [key]
  pure { s with content := ← addNode (Graph.keyNode digest label key) s.content }

/-- Merges a relationship with its ends and answers with its id. If that fails on the way, the ends
that were added stay. -/
def mergeRelationship (type fromLabel : String) (fromKey : Props) (toLabel : String)
    (toKey attrs : Props) (s : Store) : Except Fault String × Store :=
  match s.withNode digest fromLabel fromKey with
  | .error e => (.error e, s)
  | .ok s =>
    match s.withNode digest toLabel toKey with
    | .error e => (.error e, s)
    | .ok s =>
      let r := Graph.keyRelationship digest type fromLabel fromKey toLabel toKey attrs
      match (do Graph.checkWritable [attrs]; addRelationship r s.content) with
      | .error e => (.error e, s)
      | .ok content => (.ok r.id, ⟨content, true⟩)

def findRelationships (type fromLabel : String) (fromKey attrs : Props) (s : Store) :
    Except Fault (List Edge) := do
  Graph.checkWritable [fromKey]
  s.look (Graph.findRelationships digest type fromLabel fromKey attrs)
    (Graph.Damaged.findRelationships type (Graph.nodeId digest fromLabel fromKey) attrs)

/-- Deletes the relationships between two keys and answers with their number. -/
def deleteRelationship (type fromLabel : String) (fromKey : Props) (toLabel : String)
    (toKey attrs : Props) (s : Store) : Except Fault (Store × Nat) := do
  Graph.checkWritable [fromKey, toKey]
  let (content, count) ← match s.content with
    | .graph g m =>
      let (g, count) := g.deleteRelationship digest type fromLabel fromKey toLabel toKey attrs
      pure (Content.graph g m, count)
    | .damaged document => do
      let (document, count) ← Graph.Damaged.deleteRelationship type
        (Graph.nodeId digest fromLabel fromKey) (Graph.nodeId digest toLabel toKey) attrs document
      pure (Content.damaged document, count)
  pure (⟨content, s.dirty || count != 0⟩, count)

def nodeById (id : String) (s : Store) : Except Fault (Option Node) :=
  s.look (fun g ↦ .ok (g.node? id)) (Graph.Damaged.node? id)

def getNode (label : String) (key : Props) (s : Store) : Except Fault (Option Node) := do
  Graph.checkWritable [key]
  s.nodeById (Graph.nodeId digest label key)

def expandCalls (functionId : String) (s : Store) : Except Fault (List CallRecord) :=
  s.look (Graph.expandCalls functionId) (Graph.Damaged.expandCalls functionId)

def allRelationships (type : Option String) (s : Store) : Except Fault (List Relationship) :=
  s.look (fun g ↦ .ok (g.allRelationships type)) (Graph.Damaged.allRelationships type)

def functionNodes (s : Store) : Except Fault (List Node) :=
  s.look (fun g ↦ .ok g.functionNodes) Graph.Damaged.functionNodes

def stats (s : Store) : Except Fault GraphStats :=
  s.look (fun g ↦ .ok g.stats) Graph.Damaged.stats

/-- Every node. -/
def nodes (s : Store) : Except Fault (List Node) :=
  s.look (fun g ↦ .ok g.nodes) Graph.Damaged.allNodes

/-- The store without its content. Whether this has been saved is not recorded. -/
def clear (s : Store) : Store := { s with content := .empty }

/-- The number of nodes, which is looked up when the store is set up. -/
def nodeCount (s : Store) : Except Fault Nat :=
  s.look (fun g ↦ .ok g.nodes.length) Graph.Damaged.nodeCount

end Store

end CodeAtlas
