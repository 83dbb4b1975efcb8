import CodeAtlas.Proofs.Graph.Labelled

/-!
# The store is a labelled graph

The store finds nodes and relationships by ids that are digests of texts, and keeps both in lists.
What is seen of it is a labelled graph: `Graph.labelled` forgets the ids and the order in which the
items of keys and attributes came.

## Simulation

Each operation of the store does to what is seen of it what a `LabelledChange` says, and a whole
history of them is therefore seen as `LabelledGraph.after`. The step needs an injective digest: the
store asks whether an *id* is there already, the labelled graph whether the *element* is. In a
`Mapped` graph, where keys and attributes are maps of texts, this is the same question. For a digest
that is only free of collisions on the texts of a history, the whole history is moved to an
injective one.
-/

namespace CodeAtlas

/-! ## Calls of the store -/

/-- A label and a key, as the store is given them. -/
structure NodeRef where
  label : String
  key : TextItems

namespace NodeRef

/-- The node that is meant. -/
def node (n : NodeRef) : LabelledNode := ⟨n.label, n.key.toFinmap⟩

/-- The text that is hashed to find the node. -/
def text (n : NodeRef) : String := Graph.nodeText n.label n.key.props

def id (digest : Digest) (n : NodeRef) : String := Graph.nodeId digest n.label n.key.props

end NodeRef

/-- A call that may change the store. -/
inductive StoreCall where
  | mergeNode (n : NodeRef)
  | mergeRelationship (type : String) (source target : NodeRef) (attrs : TextItems)
  | deleteRelationship (type : String) (source target : NodeRef) (attrs : TextItems)
  | clear

namespace StoreCall

/-- What the call changes in a labelled graph. -/
def change : StoreCall → LabelledChange
  | mergeNode n => .mergeNode n.node
  | mergeRelationship type source target attrs =>
    .mergeEdge ⟨type, source.node, target.node, attrs.toFinmap⟩
  | deleteRelationship type source target attrs =>
    .deleteEdges type source.node target.node attrs.toFinmap
  | clear => .clear

/-- The texts that are hashed to answer the call. -/
def hashed (digest : Digest) : StoreCall → List String
  | mergeNode n => [n.text]
  | mergeRelationship type source target attrs =>
    [source.text, target.text,
      Graph.relationshipText type (source.id digest) (target.id digest) attrs.props]
  | deleteRelationship _ source target _ => [source.text, target.text]
  | clear => []

/-- The store after the call. -/
def run (digest : Digest) (s : Store) : StoreCall → Store
  | mergeNode n => (s.changed (s.mergeNode digest n.label n.key.props)).2
  | mergeRelationship type source target attrs =>
    (s.mergeRelationship digest type source.label source.key.props target.label target.key.props
      attrs.props).2
  | deleteRelationship type source target attrs =>
    (s.changed (s.deleteRelationship digest type source.label source.key.props target.label
      target.key.props attrs.props)).2
  | clear => s.clear

/-- The graph after the call. -/
def onGraph (digest : Digest) (g : Graph) : StoreCall → Graph
  | mergeNode n => g.mergeNode digest n.label n.key.props
  | mergeRelationship type source target attrs =>
    g.mergeRelationship digest type source.label source.key.props target.label target.key.props
      attrs.props
  | deleteRelationship type source target attrs =>
    g.without (Graph.isBetween type (source.id digest) (target.id digest) attrs.props)
  | clear => .empty

end StoreCall

/-- The store after a history of calls. -/
def Store.afterCalls (digest : Digest) (history : List StoreCall) : Store :=
  history.foldl (StoreCall.run digest) .empty

/-! ## What is seen of a graph -/

def Node.labelled (n : Node) : LabelledNode := ⟨n.labels.headD "", n.properties.texts⟩

namespace Graph

/-- The node with an id, as it is seen. -/
def nodeAt (g : Graph) (id : String) : LabelledNode :=
  ((g.node? id).map Node.labelled).getD ⟨"", ∅⟩

/-- A relationship as it is seen. -/
def labelledEdge (g : Graph) (r : Relationship) : LabelledEdge :=
  ⟨r.type, g.nodeAt r.sourceId, g.nodeAt r.targetId, r.properties.texts⟩

def labelled (g : Graph) : LabelledGraph :=
  ⟨g.nodes.map Node.labelled, g.relationships.map g.labelledEdge⟩

/-- Keys and attributes are maps of texts. -/
structure Mapped (digest : Digest) (g : Graph) : Prop where
  textual : g.Textual digest
  node_keys : ∀ n ∈ g.nodes, n.properties.IsTextMap
  relationship_keys : ∀ r ∈ g.relationships, r.properties.IsTextMap

variable {digest digest' : Digest} {g : Graph}

theorem nodeAt_of_node? {n : Node} {id : String} (h : g.node? id = some n) :
    g.nodeAt id = n.labelled := by
  rw [nodeAt, h]
  rfl

theorem key_nodeAt (g : Graph) (id : String) : (g.nodeAt id).key = (g.propertiesAt id).texts := by
  rw [nodeAt, propertiesAt]
  cases g.node? id <;> rfl

theorem isScalar_props (m : TextItems) : ∀ e ∈ m.props, e.2.IsScalar :=
  fun e he ↦ ((Props.isTextMap_props m).isText e he).isScalar

theorem isWritable_props (m : TextItems) : Json.isWritable (.map m.props) = true :=
  isWritable_map_of_scalar (isScalar_props m)

namespace Mapped

theorem empty : Graph.empty.Mapped digest where
  textual := consistent_empty
  node_keys := fun _ h ↦ absurd h List.not_mem_nil
  relationship_keys := fun _ h ↦ absurd h List.not_mem_nil

theorem mergeNode (hg : g.Mapped digest) (n : NodeRef) :
    (g.mergeNode digest n.label n.key.props).Mapped digest where
  textual := hg.textual.mergeNode (Props.isTextMap_props n.key).isText
  node_keys m hm := by
    rcases mem_nodes_addNode.mp hm with hm | ⟨-, rfl⟩
    · exact hg.node_keys m hm
    · exact Props.isTextMap_props n.key
  relationship_keys r hr := by
    rw [relationships_mergeNode] at hr
    exact hg.relationship_keys r hr

theorem addRelationship (hg : g.Mapped digest) {r : Relationship}
    (htextual : (g.addRelationship r).Textual digest) (hkeys : r.properties.IsTextMap) :
    (g.addRelationship r).Mapped digest where
  textual := htextual
  node_keys n hn := by
    rw [nodes_addRelationship] at hn
    exact hg.node_keys n hn
  relationship_keys q hq := by
    rw [Graph.addRelationship] at hq
    by_cases hsome : (g.relationship? r.id).isSome
    · rw [if_pos hsome] at hq
      exact hg.relationship_keys q hq
    · rw [if_neg hsome] at hq
      rcases List.mem_append.mp hq with hq | hq
      · exact hg.relationship_keys q hq
      · rw [List.mem_singleton.mp hq]
        exact hkeys

theorem mergeRelationship (hg : g.Mapped digest) (type : String) (source target : NodeRef)
    (attrs : TextItems) :
    (g.mergeRelationship digest type source.label source.key.props target.label target.key.props
      attrs.props).Mapped digest := by
  refine ((hg.mergeNode source).mergeNode target).addRelationship ?_ (Props.isTextMap_props attrs)
  exact hg.textual.mergeRelationship (Props.isTextMap_props source.key).isText
    (Props.isTextMap_props target.key).isText (Props.isTextMap_props attrs).isText

theorem without (hg : g.Mapped digest) (doomed : Relationship → Bool) :
    (g.without doomed).Mapped digest where
  textual := hg.textual.without doomed
  node_keys := hg.node_keys
  relationship_keys r hr := hg.relationship_keys r (List.mem_of_mem_filter hr)

theorem onGraph (hg : g.Mapped digest) (c : StoreCall) : (c.onGraph digest g).Mapped digest := by
  cases c with
  | mergeNode n => exact hg.mergeNode n
  | mergeRelationship type source target attrs =>
    exact hg.mergeRelationship type source target attrs
  | deleteRelationship type source target attrs => exact hg.without _
  | clear => exact Mapped.empty

/-! ## Elements and their ids -/

/-- The ends of a relationship are seen alike in a graph that has them. -/
theorem labelledEdge_congr (hg : g.Mapped digest) {h : Graph}
    (hnodes : ∀ id n, g.node? id = some n → h.node? id = some n) {r : Relationship}
    (hr : r ∈ g.relationships) : h.labelledEdge r = g.labelledEdge r := by
  obtain ⟨n, hn⟩ := hg.textual.source_mem r hr
  obtain ⟨m, hm⟩ := hg.textual.target_mem r hr
  rw [labelledEdge, labelledEdge, nodeAt_of_node? hn, nodeAt_of_node? hm,
    nodeAt_of_node? (hnodes _ _ hn), nodeAt_of_node? (hnodes _ _ hm)]

variable (hd : Function.Injective digest)

include hd

/-- A node is the one that is meant if its id is, and only then. -/
theorem labelled_eq_iff (hg : g.Mapped digest) {m : Node} (hm : m ∈ g.nodes) (n : NodeRef) :
    m.labelled = n.node ↔ m.id = n.id digest := by
  obtain ⟨label, heq⟩ := hg.textual.node_eq m hm
  have hkeys := hg.node_keys m hm
  have htexts := hkeys.texts_eq_iff (Props.isTextMap_props n.key)
  rw [Props.texts_props] at htexts
  have hlabelled : m.labelled = ⟨label, m.properties.texts⟩ := by
    rw [Node.labelled, congrArg Node.labels heq]
    rfl
  have hid : m.id = nodeId digest label m.properties := congrArg Node.id heq
  rw [hlabelled, hid, NodeRef.node, NodeRef.id, LabelledNode.mk.injEq, htexts]
  constructor
  · rintro ⟨rfl, hsorted⟩
    exact nodeId_congr hsorted
  · intro h
    exact nodeId_inj hd (fun e he ↦ (hkeys.isText e he).isScalar) (isScalar_props n.key) h

theorem mem_nodes_iff (hg : g.Mapped digest) (n : NodeRef) :
    n.node ∈ g.labelled.nodes ↔ (g.node? (n.id digest)).isSome := by
  rw [labelled, List.mem_map]
  constructor
  · rintro ⟨m, hm, hlabelled⟩
    rw [hg.labelled_eq_iff hd hm] at hlabelled
    rw [← hlabelled, hg.textual.node?_eq hm]
    rfl
  · intro h
    obtain ⟨m, hm⟩ := Option.isSome_iff_exists.mp h
    obtain ⟨hmem, hid⟩ := mem_of_node? hm
    exact ⟨m, hmem, (hg.labelled_eq_iff hd hmem n).mpr hid⟩

/-- An end of a relationship is the node that is meant if its id is, and only then. -/
theorem nodeAt_eq_iff (hg : g.Mapped digest) {id : String} (hid : ∃ m, g.node? id = some m)
    (n : NodeRef) : g.nodeAt id = n.node ↔ id = n.id digest := by
  obtain ⟨m, hm⟩ := hid
  obtain ⟨hmem, rfl⟩ := mem_of_node? hm
  rw [nodeAt_of_node? hm]
  exact hg.labelled_eq_iff hd hmem n

theorem leaves_iff (hg : g.Mapped digest) {r : Relationship} (hr : r ∈ g.relationships)
    {type : String} {source : NodeRef} {attrs : TextItems} :
    (g.labelledEdge r).Leaves type source.node attrs.toFinmap ↔
      r.type = type ∧ r.sourceId = source.id digest ∧ includes r.properties attrs.props := by
  rw [LabelledEdge.Leaves, labelledEdge, hg.nodeAt_eq_iff hd (hg.textual.source_mem r hr),
    (hg.relationship_keys r hr).includes_iff (Props.isTextMap_props attrs), Props.texts_props]

theorem joins_iff (hg : g.Mapped digest) {r : Relationship} (hr : r ∈ g.relationships)
    {type : String} {source target : NodeRef} {attrs : TextItems} :
    (g.labelledEdge r).Joins type source.node target.node attrs.toFinmap ↔
      isBetween type (source.id digest) (target.id digest) attrs.props r := by
  rw [LabelledEdge.Joins, labelledEdge, hg.nodeAt_eq_iff hd (hg.textual.source_mem r hr),
    hg.nodeAt_eq_iff hd (hg.textual.target_mem r hr), isBetween_iff,
    (hg.relationship_keys r hr).includes_iff (Props.isTextMap_props attrs), Props.texts_props]

/-- A relationship is the edge that is meant if its id is, and only then. -/
theorem labelledEdge_eq_iff (hg : g.Mapped digest) {r : Relationship} (hr : r ∈ g.relationships)
    {type : String} {source target : NodeRef} {attrs : TextItems} :
    g.labelledEdge r = ⟨type, source.node, target.node, attrs.toFinmap⟩ ↔
      r.id = (keyRelationship digest type source.label source.key.props target.label
        target.key.props attrs.props).id := by
  have hkeys := hg.relationship_keys r hr
  have htexts := hkeys.texts_eq_iff (Props.isTextMap_props attrs)
  rw [Props.texts_props] at htexts
  rw [labelledEdge, LabelledEdge.mk.injEq, hg.nodeAt_eq_iff hd (hg.textual.source_mem r hr),
    hg.nodeAt_eq_iff hd (hg.textual.target_mem r hr), htexts, hg.textual.relationship_id r hr]
  constructor
  · rintro ⟨rfl, hsource, htarget, hsorted⟩
    rw [hsource, htarget]
    exact relationshipId_congr hsorted
  · intro h
    obtain ⟨htype, hsource, htarget, hsorted⟩ := relationshipId_inj hd h
    exact ⟨htype, hsource, htarget,
      hsorted (fun e he ↦ (hkeys.isText e he).isScalar) (isScalar_props attrs)⟩

/-! ## One call -/

theorem labelled_mergeNode (hg : g.Mapped digest) (n : NodeRef) :
    (g.mergeNode digest n.label n.key.props).labelled = g.labelled.addNode n.node := by
  have hedges : (g.mergeNode digest n.label n.key.props).labelled.edges = g.labelled.edges := by
    rw [labelled, labelled, relationships_mergeNode]
    refine List.map_congr_left fun r hr ↦ ?_
    exact hg.labelledEdge_congr (fun _ _ ↦ node?_mergeNode_of_some) hr
  have hnodes : (g.mergeNode digest n.label n.key.props).labelled.nodes
      = (g.labelled.addNode n.node).nodes := by
    have hkeyNode : (keyNode digest n.label n.key.props).labelled = n.node := by
      rw [Node.labelled, keyNode, Props.texts_props]
      rfl
    rw [LabelledGraph.addNode]
    by_cases hmem : n.node ∈ g.labelled.nodes
    · have hsome := (hg.mem_nodes_iff hd n).mp hmem
      rw [if_pos hmem, Graph.mergeNode, Graph.addNode]
      exact congrArg (fun h : Graph ↦ h.labelled.nodes) (if_pos hsome)
    · have hnone := fun hsome ↦ hmem ((hg.mem_nodes_iff hd n).mpr hsome)
      rw [if_neg hmem, Graph.mergeNode, Graph.addNode]
      refine (congrArg (fun h : Graph ↦ h.labelled.nodes) (if_neg hnone)).trans ?_
      rw [labelled, List.map_append, List.map_singleton, hkeyNode]
      rfl
  calc (g.mergeNode digest n.label n.key.props).labelled
      = ⟨(g.mergeNode digest n.label n.key.props).labelled.nodes,
          (g.mergeNode digest n.label n.key.props).labelled.edges⟩ := rfl
    _ = ⟨(g.labelled.addNode n.node).nodes, (g.labelled.addNode n.node).edges⟩ := by
      rw [hnodes, hedges, LabelledGraph.edges_addNode]

theorem labelled_mergeRelationship (hg : g.Mapped digest) (type : String) (source target : NodeRef)
    (attrs : TextItems) :
    (g.mergeRelationship digest type source.label source.key.props target.label target.key.props
      attrs.props).labelled
        = g.labelled.change (.mergeEdge ⟨type, source.node, target.node, attrs.toFinmap⟩) := by
  let k := (g.mergeNode digest source.label source.key.props).mergeNode digest target.label
    target.key.props
  let r := keyRelationship digest type source.label source.key.props target.label target.key.props
    attrs.props
  have hk : k.Mapped digest := (hg.mergeNode source).mergeNode target
  have hlabelled : k.labelled = (g.labelled.addNode source.node).addNode target.node := by
    rw [(hg.mergeNode source).labelled_mergeNode hd, hg.labelled_mergeNode hd]
  have hends : (∃ m, k.node? (source.id digest) = some m) ∧
      ∃ m, k.node? (target.id digest) = some m := by
    obtain ⟨m, hm⟩ := exists_node?_mergeNode digest g source.label source.key.props
    exact ⟨⟨m, node?_mergeNode_of_some hm⟩, exists_node?_mergeNode digest _ _ _⟩
  have hedge : k.labelledEdge r = ⟨type, source.node, target.node, attrs.toFinmap⟩ := by
    rw [labelledEdge, LabelledEdge.mk.injEq]
    exact ⟨rfl, (hk.nodeAt_eq_iff hd hends.1 source).mpr rfl,
      (hk.nodeAt_eq_iff hd hends.2 target).mpr rfl, Props.texts_props attrs⟩
  change (k.addRelationship r).labelled = _
  rw [LabelledGraph.change, ← hlabelled, LabelledGraph.addEdge]
  by_cases hmem : ∃ q ∈ k.relationships, q.id = r.id
  · obtain ⟨q, hq, hid⟩ := hmem
    have hthere : (⟨type, source.node, target.node, attrs.toFinmap⟩ : LabelledEdge)
        ∈ k.labelled.edges := List.mem_map.mpr ⟨q, hq, (hk.labelledEdge_eq_iff hd hq).mpr hid⟩
    rw [if_pos hthere, addRelationship_of_mem hq hid]
  · have hnew : ∀ q ∈ k.relationships, q.id ≠ r.id := fun q hq hid ↦ hmem ⟨q, hq, hid⟩
    have hmissing : (⟨type, source.node, target.node, attrs.toFinmap⟩ : LabelledEdge)
        ∉ k.labelled.edges := by
      intro hthere
      obtain ⟨q, hq, heq⟩ := List.mem_map.mp hthere
      exact hnew q hq ((hk.labelledEdge_eq_iff hd hq).mp heq)
    rw [if_neg hmissing, addRelationship_of_forall hnew, labelled, List.map_append,
      List.map_singleton]
    exact congrArg (fun e ↦ (⟨_, k.relationships.map k.labelledEdge ++ [e]⟩ : LabelledGraph)) hedge

theorem relationships_without_isBetween (hg : g.Mapped digest) (type : String)
    (source target : NodeRef) (attrs : TextItems) :
    (g.without (isBetween type (source.id digest) (target.id digest) attrs.props)).relationships
      = g.relationships.filter fun r ↦
          ¬ (g.labelledEdge r).Joins type source.node target.node attrs.toFinmap := by
  refine List.filter_congr fun r hr ↦ ?_
  rw [Bool.eq_iff_iff, Bool.not_eq_true', decide_eq_true_iff, hg.joins_iff hd hr, Bool.not_eq_true]

theorem labelled_without (hg : g.Mapped digest) (type : String) (source target : NodeRef)
    (attrs : TextItems) :
    (g.without (isBetween type (source.id digest) (target.id digest) attrs.props)).labelled
      = g.labelled.change (.deleteEdges type source.node target.node attrs.toFinmap) := by
  rw [labelled, hg.relationships_without_isBetween hd, LabelledGraph.change, labelled,
    List.filter_map]
  rfl

/-- **A step**: what is seen of the graph changes as the call says. -/
theorem labelled_onGraph (hg : g.Mapped digest) (c : StoreCall) :
    (c.onGraph digest g).labelled = g.labelled.change c.change := by
  cases c with
  | mergeNode n => exact hg.labelled_mergeNode hd n
  | mergeRelationship type source target attrs =>
    exact hg.labelled_mergeRelationship hd type source target attrs
  | deleteRelationship type source target attrs =>
    exact hg.labelled_without hd type source target attrs
  | clear => rfl

/-- The edges that leave a node, found by id, are those that are seen to leave it. -/
theorem edgesFrom_eq (hg : g.Mapped digest) (type : String) (source : NodeRef) (attrs : TextItems) :
    ((g.edgesFrom type (source.id digest) attrs.props).map fun e ↦
        (e.target.texts, e.properties.texts))
      = (g.labelled.edges.filter fun e ↦ e.Leaves type source.node attrs.toFinmap).map fun e ↦
        (e.target.key, e.attrs) := by
  have hout : g.outgoing type (source.id digest) attrs.props = g.relationships.filter fun r ↦
      (g.labelledEdge r).Leaves type source.node attrs.toFinmap := by
    refine List.filter_congr fun r hr ↦ ?_
    rw [Bool.eq_iff_iff, decide_eq_true_iff, hg.leaves_iff hd hr, Bool.and_eq_true,
      Bool.and_eq_true, beq_iff_eq, beq_iff_eq, and_assoc]
  rw [edgesFrom, hout, labelled, List.filter_map, List.map_map, List.map_map]
  refine List.map_congr_left fun r _ ↦ ?_
  exact Prod.ext (g.key_nodeAt r.targetId).symm rfl

end Mapped

/-! ## A history of calls -/

/-- The digest matters only where a call hashes something. -/
theorem onGraph_congr {c : StoreCall} (h : ∀ t ∈ c.hashed digest, digest t = digest' t)
    (g : Graph) : c.onGraph digest g = c.onGraph digest' g := by
  have hnode : ∀ n : NodeRef, n.text ∈ c.hashed digest → n.id digest = n.id digest' :=
    fun n hmem ↦ h _ hmem
  cases c with
  | mergeNode n =>
    have hn : nodeId digest n.label n.key.props = nodeId digest' n.label n.key.props :=
      hnode n List.mem_cons_self
    simp only [StoreCall.onGraph, mergeNode, keyNode, hn]
  | mergeRelationship type source target attrs =>
    have hsource : nodeId digest source.label source.key.props
        = nodeId digest' source.label source.key.props := hnode source (by simp [StoreCall.hashed])
    have htarget : nodeId digest target.label target.key.props
        = nodeId digest' target.label target.key.props := hnode target (by simp [StoreCall.hashed])
    have hrel : relationshipId digest type (nodeId digest' source.label source.key.props)
        (nodeId digest' target.label target.key.props) attrs.props
          = relationshipId digest' type (nodeId digest' source.label source.key.props)
            (nodeId digest' target.label target.key.props) attrs.props := by
      refine h _ ?_
      rw [StoreCall.hashed, NodeRef.id, NodeRef.id, hsource, htarget]
      exact List.mem_cons_of_mem _ (List.mem_cons_of_mem _ List.mem_cons_self)
    simp only [StoreCall.onGraph, mergeRelationship, mergeNode, keyNode, keyRelationship, hsource,
      htarget, hrel]
  | deleteRelationship type source target attrs =>
    have hsource := hnode source (by simp [StoreCall.hashed])
    have htarget := hnode target (by simp [StoreCall.hashed])
    rw [StoreCall.onGraph, StoreCall.onGraph, hsource, htarget]
  | clear => rfl

end Graph

namespace Store

variable {digest digest' : Digest} {s : Store} {g : Graph} {m : Option Datum}

theorem deleteRelationship_graph (hs : s.content = .graph g m) (type : String)
    (source target : NodeRef) (attrs : TextItems) :
    s.deleteRelationship digest type source.label source.key.props target.label target.key.props
        attrs.props
      = .ok (⟨.graph (g.without
            (Graph.isBetween type (source.id digest) (target.id digest) attrs.props)) m,
          s.dirty || g.relationships.countP
            (Graph.isBetween type (source.id digest) (target.id digest) attrs.props) != 0⟩,
        g.relationships.countP
          (Graph.isBetween type (source.id digest) (target.id digest) attrs.props)) := by
  have hwritable : Graph.checkWritable [source.key.props, target.key.props] = .ok () := by
    rw [Graph.checkWritable, List.all_cons, List.all_cons, Graph.isWritable_props,
      Graph.isWritable_props]
    rfl
  rw [deleteRelationship, hwritable, hs]
  rfl

theorem getNode_graph (hs : s.content = .graph g m) (n : NodeRef) :
    s.getNode digest n.label n.key.props = .ok (g.node? (n.id digest)) := by
  have hwritable : Graph.checkWritable [n.key.props] = .ok () := by
    rw [Graph.checkWritable, List.all_cons, Graph.isWritable_props]
    rfl
  rw [getNode, hwritable, nodeById, look, hs]
  rfl

theorem findRelationships_graph (hs : s.content = .graph g m) (hg : g.Textual digest)
    (type : String) (source : NodeRef) (attrs : TextItems) :
    s.findRelationships digest type source.label source.key.props attrs.props
      = .ok (g.edgesFrom type (source.id digest) attrs.props) := by
  have hwritable : Graph.checkWritable [source.key.props] = .ok () := by
    rw [Graph.checkWritable, List.all_cons, Graph.isWritable_props]
    rfl
  rw [findRelationships, hwritable, look, hs]
  exact hg.findRelationships_eq

/-- A listing depends on the digest through the id of the node that is listed. -/
theorem findRelationships_congr {source : NodeRef} (hid : source.id digest = source.id digest')
    (type : String) (attrs : Props) :
    s.findRelationships digest type source.label source.key.props attrs
      = s.findRelationships digest' type source.label source.key.props attrs := by
  have hnode : Graph.nodeId digest source.label source.key.props
      = Graph.nodeId digest' source.label source.key.props := hid
  have hgraph : Graph.findRelationships digest type source.label source.key.props attrs
      = Graph.findRelationships digest' type source.label source.key.props attrs := by
    funext g
    rw [Graph.findRelationships, Graph.findRelationships, hnode]
  rw [findRelationships, findRelationships, hnode, hgraph]

/-- A store is seen as a call on its graph. -/
theorem Holds.run (hs : s.Holds g) (c : StoreCall) :
    (c.run digest s).Holds (c.onGraph digest g) := by
  obtain ⟨m, hm⟩ := hs
  cases c with
  | mergeNode n =>
    have hanswer := Graph.answer?_store digest ⟨m, hm⟩ (.mergeNode n.label n.key.props)
    rw [Graph.answer?, if_pos (Graph.isWritable_props n.key)] at hanswer
    obtain ⟨t, ht, hholds⟩ := hanswer
    have hstore : (StoreCall.mergeNode n).run digest s = t := congrArg Prod.snd (Option.some.inj ht)
    rw [hstore]
    exact hholds
  | mergeRelationship type source target attrs =>
    have hanswer := Graph.answer?_store digest ⟨m, hm⟩ (.mergeRelationship type source.label
      source.key.props target.label target.key.props (some attrs.props))
    rw [Graph.answer?_mergeRelationship digest g type source.label target.label (some attrs.props)
      (Graph.isScalar_props source.key) (Graph.isScalar_props target.key)
      (Graph.isScalar_props attrs)] at hanswer
    obtain ⟨t, ht, hholds⟩ := hanswer
    have hstore : (StoreCall.mergeRelationship type source target attrs).run digest s = t :=
      congrArg Prod.snd (Option.some.inj ht)
    rw [hstore]
    exact hholds
  | deleteRelationship type source target attrs =>
    rw [StoreCall.run, deleteRelationship_graph hm]
    exact ⟨m, rfl⟩
  | clear => exact ⟨_, rfl⟩

/-- **A run**: after a history of calls, what is seen of the store is what the history makes of a
labelled graph. -/
theorem exists_labelled_afterCalls (hd : Function.Injective digest') {history : List StoreCall}
    (hagree : ∀ t ∈ history.flatMap (StoreCall.hashed digest), digest t = digest' t) :
    ∃ g, (afterCalls digest history).Holds g ∧ g.Mapped digest' ∧
      g.labelled = .after (history.map StoreCall.change) := by
  induction history using List.reverseRecOn with
  | nil => exact ⟨.empty, holds_empty, .empty, rfl⟩
  | append_singleton history c ih =>
    rw [List.flatMap_append, List.forall_mem_append, List.flatMap_singleton] at hagree
    obtain ⟨g, hs, hg, hlabelled⟩ := ih hagree.1
    refine ⟨c.onGraph digest' g, ?_, hg.onGraph c, ?_⟩
    · rw [afterCalls, List.foldl_append, ← Graph.onGraph_congr hagree.2]
      exact hs.run c
    · rw [hg.labelled_onGraph hd, hlabelled, List.map_append, List.map_singleton,
        LabelledGraph.after_snoc]

/-- **The store is a labelled graph** over whole histories. After any history of calls on an empty
store, in which the digest has no collision:

* a node is found if and only if the history has named it since the last clearing;
* a listing has one entry for each edge of the type from the source that stands and has the
  attributes, in the order of the latest insertions, and no other entry;
* a deletion removes the relationships of the type between the two nodes that have the attributes,
  answers with their number, and leaves all other elements where they are. -/
theorem shows_labelled_of_history {digest : Digest} (history : List StoreCall)
    (node source target : NodeRef) (type : String) (attrs : TextItems)
    (hdigest : Collisionless digest (node.text :: source.text :: target.text ::
      history.flatMap (StoreCall.hashed digest))) :
    ∃ g m, (afterCalls digest history).content = .graph g m ∧
      g.labelled = .after (history.map StoreCall.change) ∧
      (∃ found, (afterCalls digest history).getNode digest node.label node.key.props = .ok found ∧
        (found.isSome ↔ NamedSinceClear (history.map StoreCall.change) node.node) ∧
        ∀ n ∈ found, n.labelled = node.node) ∧
      (∃ (edges : List Edge) (es : List LabelledEdge),
        (afterCalls digest history).findRelationships digest type source.label source.key.props
          attrs.props = .ok edges ∧
        (edges.map fun e ↦ (e.target.texts, e.properties.texts))
          = (es.map fun e ↦ (e.target.key, e.attrs)) ∧
        es.Nodup ∧ es.Pairwise (InsertedBefore (history.map StoreCall.change)) ∧
        ∀ e, e ∈ es ↔ Stands (history.map StoreCall.change) e ∧
          e.Leaves type source.node attrs.toFinmap) ∧
      ∃ t n, (afterCalls digest history).deleteRelationship digest type source.label
          source.key.props target.label target.key.props attrs.props = .ok (t, n) ∧
        t.content = .graph ⟨g.nodes, g.relationships.filter fun r ↦
          ¬ (g.labelledEdge r).Joins type source.node target.node attrs.toFinmap⟩ m ∧
        n = g.relationships.countP fun r ↦
          (g.labelledEdge r).Joins type source.node target.node attrs.toFinmap := by
  obtain ⟨digest', hd, hagree⟩ := exists_injective_eqOn hdigest
  simp only [List.forall_mem_cons] at hagree
  obtain ⟨hnodeText, hsourceText, htargetText, hagree⟩ := hagree
  have hnode : node.id digest = node.id digest' := hnodeText
  have hsource : source.id digest = source.id digest' := hsourceText
  have htarget : target.id digest = target.id digest' := htargetText
  obtain ⟨g, ⟨m, hm⟩, hg, hlabelled⟩ := exists_labelled_afterCalls hd hagree
  refine ⟨g, m, hm, hlabelled, ?_, ?_, ?_⟩
  · refine ⟨g.node? (node.id digest), getNode_graph hm node, ?_, ?_⟩
    · rw [hnode, ← hg.mem_nodes_iff hd, hlabelled]
      exact LabelledGraph.mem_nodes_after
    · intro n hn
      obtain ⟨hmem, hid⟩ := Graph.mem_of_node? hn
      exact (hg.labelled_eq_iff hd hmem node).mpr (hid.trans hnode)
  · refine ⟨g.edgesFrom type (source.id digest') attrs.props,
      (LabelledGraph.after (history.map StoreCall.change)).edges.filter fun e ↦
        e.Leaves type source.node attrs.toFinmap, ?_, ?_, ?_, ?_, ?_⟩
    · rw [findRelationships_congr hsource]
      exact findRelationships_graph hm hg.textual type source attrs
    · rw [hg.edgesFrom_eq hd, hlabelled]
    · exact (LabelledGraph.nodup_edges_after _).filter _
    · exact (LabelledGraph.pairwise_edges_after _).filter _
    · intro e
      rw [List.mem_filter, LabelledGraph.mem_edges_after, decide_eq_true_iff]
  · refine ⟨_, _, deleteRelationship_graph hm type source target attrs, ?_, ?_⟩
    · rw [hsource, htarget, ← hg.relationships_without_isBetween hd type source target attrs]
      rfl
    · rw [hsource, htarget]
      refine List.countP_congr fun r hr ↦ ?_
      rw [decide_eq_true_iff, hg.joins_iff hd hr]

/-- The file at a path. -/
def fileRef (path : String) : NodeRef := ⟨Graph.fileLabel, AList.singleton "path" path⟩

/-- A file imports a clause from one module, and then from another one. -/
def movedImport : List StoreCall :=
  [.mergeRelationship Graph.importsFrom (fileRef "a") (fileRef "b") (AList.singleton "clause" "x"),
    .deleteRelationship Graph.importsFrom (fileRef "a") (fileRef "b") ∅,
    .mergeRelationship Graph.importsFrom (fileRef "a") (fileRef "c") (AList.singleton "clause" "x")]

/-- The end of a relationship that has been deleted is still there. -/
theorem shows_labelled_of_movedImport :
    Collisionless Text.Digest.ofText ((fileRef "b").text :: (fileRef "a").text ::
        (fileRef "b").text :: movedImport.flatMap (StoreCall.hashed Text.Digest.ofText)) ∧
      ∃ n, (afterCalls Text.Digest.ofText movedImport).getNode Text.Digest.ofText
          (fileRef "b").label (fileRef "b").key.props = .ok (some n) ∧
        n.labelled = (fileRef "b").node := by
  have hdigest : Collisionless Text.Digest.ofText ((fileRef "b").text :: (fileRef "a").text ::
      (fileRef "b").text :: movedImport.flatMap (StoreCall.hashed Text.Digest.ofText)) := by
    decide +kernel
  obtain ⟨-, -, -, -, ⟨found, hfound, hiff, hlabelled⟩, -⟩ := shows_labelled_of_history movedImport
    (fileRef "b") (fileRef "a") (fileRef "b") Graph.importsFrom ∅ hdigest
  have hnamed : NamedSinceClear (movedImport.map StoreCall.change) (fileRef "b").node := by
    refine ⟨[], _, _, rfl, List.mem_cons_of_mem _ List.mem_cons_self, ?_⟩
    simp [StoreCall.change]
  obtain ⟨n, rfl⟩ := Option.isSome_iff_exists.mp (hiff.mpr hnamed)
  exact ⟨hdigest, n, hfound, hlabelled n rfl⟩

end Store

end CodeAtlas
