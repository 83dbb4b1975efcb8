import CodeAtlas.Proofs.Entries
import CodeAtlas.Proofs.Graph.Answers
import Mathlib.Data.List.Permutation

/-!
# Consistent graphs

The operations of the store keep a graph in order: no id occurs twice, every id says what its
element is, and a relationship has both of its ends. A graph in this order can be read off its ids.
Which node a relationship leads to is settled by its target, and two relationships with the same
parts are one.

Removing nodes would leave relationships without ends, so no operation removes nodes, and what was
found at an id stays there.
-/

namespace CodeAtlas

namespace Datum

def IsText : Datum → Prop
  | .text _ => True
  | _ => False

theorem IsText.isScalar {d : Datum} (h : d.IsText) : d.IsScalar := by
  cases d with
  | text s => trivial
  | _ => exact h.elim

end Datum

namespace Graph

variable {digest : Digest} {admits : Datum → Prop} {g : Graph}

/-! ## Looking up after changes -/

/-- The graph without the relationships that are selected. -/
def without (g : Graph) (doomed : Relationship → Bool) : Graph :=
  { g with relationships := g.relationships.filter fun r ↦ !doomed r }

@[simp] theorem nodes_addRelationship (g : Graph) (r : Relationship) :
    (g.addRelationship r).nodes = g.nodes := by
  rw [addRelationship]
  split <;> rfl

@[simp] theorem relationships_addNode (g : Graph) (n : Node) :
    (g.addNode n).relationships = g.relationships := by
  rw [addNode]
  split <;> rfl

@[simp] theorem relationships_mergeNode (g : Graph) (label : String) (key : Props) :
    (g.mergeNode digest label key).relationships = g.relationships := relationships_addNode g _

theorem mem_relationships_without {doomed : Relationship → Bool} {r : Relationship} :
    r ∈ (g.without doomed).relationships ↔ r ∈ g.relationships ∧ ¬ doomed r := by
  rw [without, List.mem_filter, Bool.not_eq_true', Bool.not_eq_true]

theorem node?_congr {g h : Graph} (hnodes : g.nodes = h.nodes) (id : String) :
    g.node? id = h.node? id := by
  rw [node?, node?, hnodes]

theorem mem_of_node? {n : Node} {id : String} (h : g.node? id = some n) :
    n ∈ g.nodes ∧ n.id = id :=
  ⟨List.mem_of_find?_eq_some h, eq_of_beq (List.find?_some (p := fun n : Node ↦ n.id == id) h)⟩

theorem node?_addNode (g : Graph) (n : Node) (id : String) :
    (g.addNode n).node? id = (g.node? id).or (if n.id = id then some n else none) := by
  rw [addNode]
  split
  · rename_i hsome
    split
    · rename_i hid
      rw [← hid, Option.or_of_isSome hsome]
    · rw [Option.or_none]
  · rw [node?, node?, List.find?_append, List.find?_singleton]
    simp only [beq_iff_eq]

/-- What is found at an id stays there. -/
theorem node?_addNode_of_some {n m : Node} {id : String} (h : g.node? id = some m) :
    (g.addNode n).node? id = some m := by
  rw [node?_addNode, h, Option.some_or]

theorem node?_mergeNode_of_some {label : String} {key : Props} {m : Node} {id : String}
    (h : g.node? id = some m) : (g.mergeNode digest label key).node? id = some m :=
  node?_addNode_of_some h

theorem exists_node?_mergeNode (digest : Digest) (g : Graph) (label : String) (key : Props) :
    ∃ n, (g.mergeNode digest label key).node? (nodeId digest label key) = some n := by
  rw [mergeNode, node?_addNode]
  cases g.node? (nodeId digest label key) with
  | some n => exact ⟨n, Option.some_or⟩
  | none => exact ⟨_, if_pos rfl⟩

theorem mem_nodes_addNode {n m : Node} :
    m ∈ (g.addNode n).nodes ↔ m ∈ g.nodes ∨ (g.node? n.id = none ∧ m = n) := by
  rw [addNode]
  split
  · rename_i hsome
    rw [Option.isSome_iff_ne_none] at hsome
    exact ⟨Or.inl, fun h ↦ h.resolve_right fun hn ↦ hsome hn.1⟩
  · rename_i hnone
    rw [Option.not_isSome_iff_eq_none] at hnone
    rw [List.mem_append, List.mem_singleton]
    exact or_congr Iff.rfl ⟨fun h ↦ ⟨hnone, h⟩, And.right⟩

theorem relationship?_eq_none {id : String} :
    g.relationship? id = none ↔ ∀ r ∈ g.relationships, r.id ≠ id := by
  rw [relationship?, List.find?_eq_none]
  simp only [beq_iff_eq]

theorem addRelationship_of_mem {r q : Relationship} (hq : q ∈ g.relationships) (hid : q.id = r.id) :
    g.addRelationship r = g := by
  rw [addRelationship, if_pos]
  rw [Option.isSome_iff_ne_none]
  exact fun hnone ↦ relationship?_eq_none.mp hnone q hq hid

theorem addRelationship_of_forall {r : Relationship} (h : ∀ q ∈ g.relationships, q.id ≠ r.id) :
    g.addRelationship r = { g with relationships := g.relationships ++ [r] } := by
  rw [addRelationship, if_neg]
  rw [relationship?_eq_none.mpr h]
  exact Bool.false_ne_true

theorem mem_relationships_addRelationship {r q : Relationship}
    (hr : ∀ q ∈ g.relationships, q.id = r.id → q = r) :
    q ∈ (g.addRelationship r).relationships ↔ q ∈ g.relationships ∨ q = r := by
  by_cases h : ∃ q ∈ g.relationships, q.id = r.id
  · obtain ⟨p, hp, hid⟩ := h
    rw [addRelationship_of_mem hp hid]
    refine ⟨Or.inl, fun hq ↦ hq.elim id ?_⟩
    rintro rfl
    exact hr p hp hid ▸ hp
  · rw [addRelationship_of_forall fun q hq hid ↦ h ⟨q, hq, hid⟩]
    rw [List.mem_append, List.mem_singleton]

/-! ## Consistency -/

/-- Every id says what its element is, no id occurs twice, and relationships have both ends. The
values of keys and attributes are among the admitted ones. -/
structure Consistent (digest : Digest) (admits : Datum → Prop) (g : Graph) : Prop where
  node_eq : ∀ n ∈ g.nodes, ∃ label, n = keyNode digest label n.properties
  node_admits : ∀ n ∈ g.nodes, ∀ e ∈ n.properties, admits e.2
  nodes_nodup : (g.nodes.map (·.id)).Nodup
  relationship_id : ∀ r ∈ g.relationships,
    r.id = relationshipId digest r.type r.sourceId r.targetId r.properties
  relationship_admits : ∀ r ∈ g.relationships, ∀ e ∈ r.properties, admits e.2
  relationships_nodup : (g.relationships.map (·.id)).Nodup
  source_mem : ∀ r ∈ g.relationships, ∃ n, g.node? r.sourceId = some n
  target_mem : ∀ r ∈ g.relationships, ∃ n, g.node? r.targetId = some n

theorem consistent_empty : Graph.empty.Consistent digest admits where
  node_eq := fun _ h ↦ absurd h List.not_mem_nil
  node_admits := fun _ h ↦ absurd h List.not_mem_nil
  nodes_nodup := List.nodup_nil
  relationship_id := fun _ h ↦ absurd h List.not_mem_nil
  relationship_admits := fun _ h ↦ absurd h List.not_mem_nil
  relationships_nodup := List.nodup_nil
  source_mem := fun _ h ↦ absurd h List.not_mem_nil
  target_mem := fun _ h ↦ absurd h List.not_mem_nil

namespace Consistent

theorem node?_eq (hg : g.Consistent digest admits) {n : Node} (hn : n ∈ g.nodes) :
    g.node? n.id = some n := by
  rw [node?, List.find?_eq_some_iff_append]
  obtain ⟨before, after, hsplit⟩ := List.append_of_mem hn
  refine ⟨beq_self_eq_true _, before, after, hsplit, fun m hm ↦ ?_⟩
  have hnodup := hg.nodes_nodup
  rw [hsplit, List.map_append, List.map_cons, List.nodup_append] at hnodup
  have hne := hnodup.2.2 m.id (List.mem_map_of_mem hm) n.id List.mem_cons_self
  rw [Bool.not_eq_true', beq_eq_false_iff_ne]
  exact hne

theorem mergeNode (hg : g.Consistent digest admits) {label : String} {key : Props}
    (hkey : ∀ e ∈ key, admits e.2) : (g.mergeNode digest label key).Consistent digest admits where
  node_eq n hn := by
    rcases mem_nodes_addNode.mp hn with hn | ⟨-, rfl⟩
    · exact hg.node_eq n hn
    · exact ⟨label, rfl⟩
  node_admits n hn := by
    rcases mem_nodes_addNode.mp hn with hn | ⟨-, rfl⟩
    · exact hg.node_admits n hn
    · exact hkey
  nodes_nodup := by
    rw [Graph.mergeNode, addNode]
    split
    · exact hg.nodes_nodup
    · rename_i hnone
      rw [Option.not_isSome_iff_eq_none, node?, List.find?_eq_none] at hnone
      rw [List.map_append, List.map_singleton, List.nodup_append]
      refine ⟨hg.nodes_nodup, List.nodup_singleton _, fun a ha b hb hab ↦ ?_⟩
      obtain ⟨n, hn, rfl⟩ := List.mem_map.mp ha
      rw [List.mem_singleton] at hb
      exact hnone n hn (beq_iff_eq.mpr (hab.trans hb))
  relationship_id := by
    rw [relationships_mergeNode]
    exact hg.relationship_id
  relationship_admits := by
    rw [relationships_mergeNode]
    exact hg.relationship_admits
  relationships_nodup := by
    rw [relationships_mergeNode]
    exact hg.relationships_nodup
  source_mem r hr := by
    rw [relationships_mergeNode] at hr
    obtain ⟨n, hn⟩ := hg.source_mem r hr
    exact ⟨n, node?_mergeNode_of_some hn⟩
  target_mem r hr := by
    rw [relationships_mergeNode] at hr
    obtain ⟨n, hn⟩ := hg.target_mem r hr
    exact ⟨n, node?_mergeNode_of_some hn⟩

theorem addRelationship (hg : g.Consistent digest admits) {r : Relationship}
    (hid : r.id = relationshipId digest r.type r.sourceId r.targetId r.properties)
    (hattrs : ∀ e ∈ r.properties, admits e.2) (hsource : ∃ n, g.node? r.sourceId = some n)
    (htarget : ∃ n, g.node? r.targetId = some n) :
    (g.addRelationship r).Consistent digest admits := by
  by_cases hmem : ∃ q ∈ g.relationships, q.id = r.id
  · obtain ⟨q, hq, hqr⟩ := hmem
    rw [addRelationship_of_mem hq hqr]
    exact hg
  · have hnew : ∀ q ∈ g.relationships, q.id ≠ r.id := fun q hq hqr ↦ hmem ⟨q, hq, hqr⟩
    rw [addRelationship_of_forall hnew]
    have hold : ∀ {P : Relationship → Prop}, (∀ q ∈ g.relationships, P q) → P r →
        ∀ q ∈ g.relationships ++ [r], P q := by
      intro P hP hPr q hq
      rcases List.mem_append.mp hq with hq | hq
      · exact hP q hq
      · exact List.mem_singleton.mp hq ▸ hPr
    exact
      { node_eq := hg.node_eq
        node_admits := hg.node_admits
        nodes_nodup := hg.nodes_nodup
        relationship_id := hold hg.relationship_id hid
        relationship_admits := hold hg.relationship_admits hattrs
        relationships_nodup := by
          rw [List.map_append, List.map_singleton, List.nodup_append]
          refine ⟨hg.relationships_nodup, List.nodup_singleton _, fun a ha b hb hab ↦ ?_⟩
          obtain ⟨q, hq, rfl⟩ := List.mem_map.mp ha
          exact hnew q hq (hab.trans (List.mem_singleton.mp hb))
        source_mem := hold hg.source_mem hsource
        target_mem := hold hg.target_mem htarget }

theorem mergeRelationship (hg : g.Consistent digest admits) {type fromLabel toLabel : String}
    {fromKey toKey attrs : Props} (hfrom : ∀ e ∈ fromKey, admits e.2)
    (hto : ∀ e ∈ toKey, admits e.2) (hattrs : ∀ e ∈ attrs, admits e.2) :
    (g.mergeRelationship digest type fromLabel fromKey toLabel toKey attrs).Consistent digest
      admits := by
  refine ((hg.mergeNode hfrom).mergeNode hto).addRelationship rfl hattrs ?_
    (exists_node?_mergeNode digest _ toLabel toKey)
  obtain ⟨n, hn⟩ := exists_node?_mergeNode digest g fromLabel fromKey
  exact ⟨n, node?_mergeNode_of_some hn⟩

theorem without (hg : g.Consistent digest admits) (doomed : Relationship → Bool) :
    (g.without doomed).Consistent digest admits where
  node_eq := hg.node_eq
  node_admits := hg.node_admits
  nodes_nodup := hg.nodes_nodup
  relationship_id r hr := hg.relationship_id r (List.mem_of_mem_filter hr)
  relationship_admits r hr := hg.relationship_admits r (List.mem_of_mem_filter hr)
  relationships_nodup := hg.relationships_nodup.sublist (List.filter_sublist.map _)
  source_mem r hr := hg.source_mem r (List.mem_of_mem_filter hr)
  target_mem r hr := hg.target_mem r (List.mem_of_mem_filter hr)

/-! ## Edges -/

end Consistent

/-- The properties of the node with an id. -/
def propertiesAt (g : Graph) (id : String) : Props := ((g.node? id).map (·.properties)).getD []

theorem propertiesAt_of_node? {n : Node} {id : String} (h : g.node? id = some n) :
    g.propertiesAt id = n.properties := by
  rw [propertiesAt, h, Option.map_some, Option.getD_some]

/-- The relationships of a type that leave a node, as they are seen from there. -/
def edgesFrom (g : Graph) (type sourceId : String) (attrs : Props) : List Edge :=
  (g.outgoing type sourceId attrs).map fun r ↦ ⟨g.propertiesAt r.targetId, r.properties⟩

theorem mem_outgoing {type sourceId : String} {attrs : Props} {r : Relationship} :
    r ∈ g.outgoing type sourceId attrs ↔ r ∈ g.relationships ∧ r.type = type ∧
      r.sourceId = sourceId ∧ includes r.properties attrs := by
  rw [outgoing, List.mem_filter, Bool.and_eq_true, Bool.and_eq_true, beq_iff_eq, beq_iff_eq,
    and_assoc]

theorem includes_nil (ps : Props) : includes ps [] = true := rfl

theorem mem_edgesFrom {type sourceId : String} {attrs : Props} {e : Edge} :
    e ∈ g.edgesFrom type sourceId attrs ↔ ∃ r ∈ g.outgoing type sourceId attrs,
      e = ⟨g.propertiesAt r.targetId, r.properties⟩ := by
  rw [edgesFrom, List.mem_map]
  simp only [eq_comm]

theorem isBetween_iff {type sourceId targetId : String} {attrs : Props} {r : Relationship} :
    isBetween type sourceId targetId attrs r ↔ r.type = type ∧ r.sourceId = sourceId ∧
      r.targetId = targetId ∧ includes r.properties attrs := by
  rw [isBetween, Bool.and_eq_true, Bool.and_eq_true, Bool.and_eq_true, beq_iff_eq, beq_iff_eq,
    beq_iff_eq, and_assoc, and_assoc]

namespace Consistent

theorem edgeOf_eq (hg : g.Consistent digest admits) {r : Relationship}
    (hr : r ∈ g.relationships) :
    g.edgeOf r = .ok ⟨g.propertiesAt r.targetId, r.properties⟩ := by
  obtain ⟨n, hn⟩ := hg.target_mem r hr
  rw [edgeOf, endNode, propertiesAt_of_node? hn, hn]
  rfl

theorem findRelationships_eq (hg : g.Consistent digest admits) {type fromLabel : String}
    {fromKey attrs : Props} :
    g.findRelationships digest type fromLabel fromKey attrs
      = .ok (g.edgesFrom type (nodeId digest fromLabel fromKey) attrs) := by
  have hmap : ∀ rs : List Relationship, (∀ r ∈ rs, r ∈ g.relationships) →
      rs.mapM g.edgeOf = .ok (rs.map fun r ↦ ⟨g.propertiesAt r.targetId, r.properties⟩) := by
    intro rs hrs
    induction rs with
    | nil => rfl
    | cons r rs ih =>
      rw [List.forall_mem_cons] at hrs
      rw [List.mapM_cons, hg.edgeOf_eq hrs.1, ih hrs.2]
      rfl
  exact hmap _ fun r hr ↦ (mem_outgoing.mp hr).1

end Consistent

/-- What is seen from a node depends on what leaves it, as long as nodes stay where they are. -/
theorem Consistent.edgesFrom_congr {h : Graph} (hg : g.Consistent digest admits)
    (hnodes : ∀ id n, g.node? id = some n → h.node? id = some n) {type sourceId : String}
    {attrs : Props} (hout : h.outgoing type sourceId attrs = g.outgoing type sourceId attrs) :
    h.edgesFrom type sourceId attrs = g.edgesFrom type sourceId attrs := by
  rw [edgesFrom, edgesFrom, hout]
  refine List.map_congr_left fun r hr ↦ ?_
  obtain ⟨n, hn⟩ := hg.target_mem r (mem_outgoing.mp hr).1
  rw [propertiesAt_of_node? hn, propertiesAt_of_node? (hnodes _ _ hn)]

theorem node?_mergeRelationship_of_some {type fromLabel toLabel : String}
    {fromKey toKey attrs : Props} {id : String} {n : Node} (hn : g.node? id = some n) :
    (g.mergeRelationship digest type fromLabel fromKey toLabel toKey attrs).node? id = some n := by
  rw [mergeRelationship, node?_congr (nodes_addRelationship _ _)]
  exact node?_mergeNode_of_some (node?_mergeNode_of_some hn)

theorem outgoing_mergeRelationship_of_ne {type fromLabel toLabel : String}
    {fromKey toKey attrs attrs' : Props} {type' sourceId : String} (hne : type ≠ type') :
    (g.mergeRelationship digest type fromLabel fromKey toLabel toKey attrs).outgoing type' sourceId
      attrs' = g.outgoing type' sourceId attrs' := by
  rw [mergeRelationship, addRelationship]
  split
  · rw [outgoing, relationships_mergeNode, relationships_mergeNode, outgoing]
  · rw [outgoing, relationships_mergeNode, relationships_mergeNode, List.filter_append,
      List.filter_singleton]
    have hfalse : (type == type') = false := beq_eq_false_iff_ne.mpr hne
    simp only [keyRelationship, hfalse, Bool.false_and, cond_false, List.append_nil]
    rfl

theorem outgoing_without {doomed : Relationship → Bool} {type sourceId : String} {attrs : Props}
    (h : ∀ r ∈ g.outgoing type sourceId attrs, doomed r = false) :
    (g.without doomed).outgoing type sourceId attrs = g.outgoing type sourceId attrs := by
  rw [outgoing, outgoing, without, List.filter_filter]
  refine List.filter_congr fun r hr ↦ ?_
  by_cases hout : r ∈ g.outgoing type sourceId attrs
  · rw [h r hout, Bool.not_false, Bool.and_true]
  · rw [outgoing, List.mem_filter, not_and] at hout
    rw [eq_false_of_ne_true (hout hr), Bool.false_and]

/-- A relationship that is there is not added again. -/
theorem relationships_mergeRelationship_of_mem {type fromLabel toLabel : String}
    {fromKey toKey attrs : Props}
    (h : keyRelationship digest type fromLabel fromKey toLabel toKey attrs ∈ g.relationships) :
    (g.mergeRelationship digest type fromLabel fromKey toLabel toKey attrs).relationships
      = g.relationships := by
  have hrels : ((g.mergeNode digest fromLabel fromKey).mergeNode digest toLabel toKey).relationships
      = g.relationships := (relationships_mergeNode _ _ _).trans (relationships_mergeNode _ _ _)
  rw [← hrels] at h
  rw [mergeRelationship, addRelationship_of_mem h rfl, hrels]

/-! ## Reading ids -/

section Reading

variable (hd : Function.Injective digest) (hadmits : ∀ d, admits d → d.IsScalar)

include hd hadmits

/-- A node is known from its id up to the order of its properties. -/
theorem Consistent.node_of_id (hg : g.Consistent digest admits) {n : Node} {label : String}
    {key : Props} (hkey : ∀ e ∈ key, e.2.IsScalar) (hn : g.node? (nodeId digest label key) = some n) :
    n.labels = [label] ∧ n.properties.Perm key := by
  obtain ⟨hmem, hid⟩ := mem_of_node? hn
  obtain ⟨label', heq⟩ := hg.node_eq n hmem
  have hscalar : ∀ e ∈ n.properties, e.2.IsScalar :=
    fun e he ↦ hadmits _ (hg.node_admits n hmem e he)
  rw [heq] at hid
  obtain ⟨rfl, hsorted⟩ := nodeId_inj hd hscalar hkey hid
  refine ⟨by rw [heq]; rfl, ?_⟩
  exact (Props.sorted_perm _).symm.trans (hsorted ▸ Props.sorted_perm key)

/-- A relationship with at most one attribute is known from its id. -/
theorem Consistent.eq_keyRelationship (hg : g.Consistent digest admits) {r : Relationship}
    (hr : r ∈ g.relationships) {type fromLabel toLabel : String} {fromKey toKey attrs : Props}
    (hattrs : ∀ e ∈ attrs, e.2.IsScalar) (hone : attrs.length ≤ 1)
    (hid : r.id = (keyRelationship digest type fromLabel fromKey toLabel toKey attrs).id) :
    r = keyRelationship digest type fromLabel fromKey toLabel toKey attrs := by
  have hparts := hid
  rw [hg.relationship_id r hr] at hparts
  obtain ⟨htype, hsource, htarget, hsorted⟩ := relationshipId_inj hd hparts
  have hperm : r.properties.Perm attrs := (Props.sorted_perm _).symm.trans
    (hsorted (fun e he ↦ hadmits _ (hg.relationship_admits r hr e he)) hattrs ▸
      Props.sorted_perm attrs)
  have heq : r.properties = attrs := by
    rcases attrs with - | ⟨e, - | ⟨f, rest⟩⟩
    · exact hperm.eq_nil
    · exact List.perm_singleton.mp hperm
    · exact absurd hone (by simp)
  calc r = ⟨r.id, r.type, r.sourceId, r.targetId, r.properties⟩ := rfl
    _ = keyRelationship digest type fromLabel fromKey toLabel toKey attrs := by
      rw [hid, htype, hsource, htarget, heq, keyRelationship]

/-- A relationship that is not there is added at the end. -/
theorem Consistent.relationships_mergeRelationship_of_notMem (hg : g.Consistent digest admits)
    {type fromLabel toLabel : String} {fromKey toKey attrs : Props}
    (hattrs : ∀ e ∈ attrs, e.2.IsScalar) (hone : attrs.length ≤ 1)
    (h : keyRelationship digest type fromLabel fromKey toLabel toKey attrs ∉ g.relationships) :
    (g.mergeRelationship digest type fromLabel fromKey toLabel toKey attrs).relationships
      = g.relationships ++ [keyRelationship digest type fromLabel fromKey toLabel toKey attrs] := by
  have hnew : ∀ q ∈ g.relationships,
      q.id ≠ (keyRelationship digest type fromLabel fromKey toLabel toKey attrs).id := by
    intro q hq hid
    rw [hg.eq_keyRelationship hd hadmits hq hattrs hone hid] at hq
    exact h hq
  rw [Graph.mergeRelationship, addRelationship_of_forall
    (by rw [relationships_mergeNode, relationships_mergeNode]; exact hnew)]
  simp only [relationships_mergeNode]

theorem Consistent.mem_relationships_mergeRelationship (hg : g.Consistent digest admits)
    {type fromLabel toLabel : String} {fromKey toKey attrs : Props}
    (hattrs : ∀ e ∈ attrs, e.2.IsScalar) (hone : attrs.length ≤ 1) {r : Relationship} :
    r ∈ (g.mergeRelationship digest type fromLabel fromKey toLabel toKey attrs).relationships ↔
      r ∈ g.relationships ∨ r = keyRelationship digest type fromLabel fromKey toLabel toKey attrs := by
  rw [Graph.mergeRelationship, mem_relationships_addRelationship, relationships_mergeNode,
    relationships_mergeNode]
  intro q hq hid
  rw [relationships_mergeNode, relationships_mergeNode] at hq
  exact hg.eq_keyRelationship hd hadmits hq hattrs hone hid

end Reading

end Graph

end CodeAtlas
