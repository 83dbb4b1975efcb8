import CodeAtlas.Graph.Basic
import CodeAtlas.Lookup

/-!
# Graphs in documents of another shape

A stored document that can be read but does not have the shape of a graph is used as it is: every
operation looks up what it needs and fails where the document does not have it. What the operations
read is therefore stated here once more, on plain data.
-/

namespace CodeAtlas.Graph.Damaged

open Lookup

/-! ## Elements -/

def nodeOf (id : String) (data : Datum) : Except Fault Node := do
  let labels ← items (← field "labels" data)
  let properties ← asProps (← field "properties" data)
  pure ⟨id, labels.map Datum.display, properties⟩

def nodeAt (id : Datum) (document : Datum) : Except Fault Node := do
  let nodes ← field "nodes" document
  nodeOf id.display (← item id nodes)

def relationshipOf (id : String) (data : Datum) : Except Fault Relationship := do
  let type ← field "type" data
  let source ← field "source_id" data
  let target ← field "target_id" data
  let properties ← asProps (← field "properties" data)
  pure ⟨id, type.display, source.display, target.display, properties⟩

/-- Do the properties, whatever they are, include the attributes? -/
def matchesAttrs (properties : Datum) (attrs : Props) : Except Fault Bool :=
  if attrs.isEmpty then pure true
  else do pure (includes (← entries "get" properties) attrs)

def nodeCount (document : Datum) : Except Fault Nat := do size (← field "nodes" document)

def relationshipEntries (operation : String) (document : Datum) : Except Fault Props := do
  entries operation (← field "relationships" document)

/-! ## Operations -/

/-- The edge that a relationship is, if it is one of the type from the source with the attributes. -/
def edge? (type sourceId : String) (attrs : Props) (document rel : Datum) :
    Except Fault (Option Edge) := do
  if !(← field "type" rel).same (.text type) then pure none
  else if !(← field "source_id" rel).same (.text sourceId) then pure none
  else
    let properties ← field "properties" rel
    if ← matchesAttrs properties attrs then
      let nodes ← field "nodes" document
      let target ← item (← field "target_id" rel) nodes
      pure (some ⟨← asProps (← field "properties" target), ← asProps properties⟩)
    else pure none

def findRelationships (type sourceId : String) (attrs : Props) (document : Datum) :
    Except Fault (List Edge) := do
  let found ← (← relationshipEntries "values" document).mapM fun e ↦
    edge? type sourceId attrs document e.2
  pure (found.filterMap id)

def isDoomed (type sourceId targetId : String) (attrs : Props) (rel : Datum) : Except Fault Bool := do
  if !(← field "type" rel).same (.text type) then pure false
  else if !(← field "source_id" rel).same (.text sourceId) then pure false
  else if !(← field "target_id" rel).same (.text targetId) then pure false
  else matchesAttrs (← field "properties" rel) attrs

/-- The entry of a relationship, if it is not a doomed one. -/
def spared? (type sourceId targetId : String) (attrs : Props) (e : String × Datum) :
    Except Fault (Option (String × Datum)) := do
  if ← isDoomed type sourceId targetId attrs e.2 then pure none else pure (some e)

/-- The document without the relationships between two nodes, and their number. -/
def deleteRelationship (type sourceId targetId : String) (attrs : Props) (document : Datum) :
    Except Fault (Datum × Nat) := do
  let rels ← relationshipEntries "items" document
  let spared ← rels.mapM (spared? type sourceId targetId attrs)
  let kept := spared.filterMap id
  pure (← put "relationships" (.map kept) document, rels.length - kept.length)

def mergeNode (n : Node) (document : Datum) : Except Fault Datum := do
  let nodes ← field "nodes" document
  if ← holds n.id nodes then pure document
  else
    let data := Datum.map [("labels", .list (n.labels.map .text)), ("properties", .map n.properties)]
    put "nodes" (← put n.id data nodes) document

/-- Adds a relationship between nodes that have been merged already. -/
def mergeRelationship (r : Relationship) (document : Datum) : Except Fault Datum := do
  let rels ← field "relationships" document
  if ← holds r.id rels then pure document
  else
    let data := Datum.map [("type", .text r.type), ("source_id", .text r.sourceId),
      ("target_id", .text r.targetId), ("properties", .map r.properties)]
    put "relationships" (← put r.id data rels) document

def node? (id : String) (document : Datum) : Except Fault (Option Node) := do
  if ← holds id (← field "nodes" document) then pure (some (← nodeAt (.text id) document))
  else pure none

/-- The call that a relationship is, if it is one that the function makes or receives. -/
def call? (functionId : String) (document : Datum) (id : String) (rel : Datum) :
    Except Fault (Option CallRecord) := do
  if !(← field "type" rel).same (.text calls) then pure none
  else
    let source ← field "source_id" rel
    let target ← field "target_id" rel
    if source.same (.text functionId) || target.same (.text functionId) then
      let s ← nodeAt source document
      let r ← relationshipOf id rel
      pure (some ⟨s, r, ← nodeAt target document⟩)
    else pure none

def expandCalls (functionId : String) (document : Datum) : Except Fault (List CallRecord) := do
  let found ← (← relationshipEntries "items" document).mapM fun e ↦
    call? functionId document e.1 e.2
  pure (found.filterMap id)

def allRelationships (type : Option String) (document : Datum) : Except Fault (List Relationship) := do
  let found ← (← relationshipEntries "items" document).mapM fun (id, rel) ↦ do
    match type with
    | some t =>
      if (← field "type" rel).same (.text t) then pure (some (← relationshipOf id rel)) else pure none
    | none => pure (some (← relationshipOf id rel))
  pure (found.filterMap id)

def allNodes (document : Datum) : Except Fault (List Node) := do
  (← entries "items" (← field "nodes" document)).mapM fun (id, data) ↦ nodeOf id data

def functionNodes (document : Datum) : Except Fault (List Node) := do
  let found ← (← entries "items" (← field "nodes" document)).mapM fun (id, data) ↦ do
    if ← holds functionLabel (← field "labels" data) then pure (some (← nodeOf id data))
    else pure none
  pure (found.filterMap id)

/-- The labels of a node as they are counted. -/
def labelsOf (data : Datum) : Except Fault (List String) := do
  (← items (← field "labels" data)).mapM hashed

/-- The type of a relationship as it is counted. -/
def typeOf (rel : Datum) : Except Fault String := do hashed (← field "type" rel)

def stats (document : Datum) : Except Fault GraphStats := do
  let labels ← (← entries "values" (← field "nodes" document)).mapM fun e ↦ labelsOf e.2
  let types ← (← relationshipEntries "values" document).mapM fun e ↦ typeOf e.2
  pure ⟨tally labels.flatten, tally types⟩

end CodeAtlas.Graph.Damaged
