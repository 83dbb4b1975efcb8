import CodeAtlas.Proofs.Graph.Refinement
import CodeAtlas.Proofs.Json.RoundTrip

/-!
# The document of a graph

The text of a document is read back as the graph that it was written for, with the nodes and the
relationships in their order. The text is that of a map of maps, so two things are needed: the data
of a document say which graph they are of, and the text says which data it is of. For the latter no
id may occur twice, and keys and attributes have to be maps of texts, which a `Mapped` graph has.

Beside the graph a document has its stamps, which are missing before the first save.
-/

namespace CodeAtlas

open Json (Readable)

namespace Content

variable {g : Graph}

/-! ## Stamps -/

/-- The stamps with the times of the first and of the last save. -/
def stamps (created updated : Option String) : Datum :=
  .map [("version", .text "1.0"), ("created_at", ToDatum.toDatum created),
    ("updated_at", ToDatum.toDatum updated)]

/-- A save finds the place of both stamps. It keeps the first one if there is one. -/
theorem exists_stamped_stamps (now : String) (created updated : Option String) :
    ∃ created', stamped now (stamps created updated) = .ok (stamps created' (some now)) := by
  have hput : stamped now (stamps created updated)
      = if (ToDatum.toDatum created).truthy then .ok (stamps created (some now))
        else .ok (stamps (some now) (some now)) := by
    rfl
  rw [hput]
  split
  · exact ⟨created, rfl⟩
  · exact ⟨some now, rfl⟩

/-! ## The data of a document -/

theorem mapM_map_of_forall {α β : Type} {write : α → β} {read? : β → Option α}
    (h : ∀ a, read? (write a) = some a) (as : List α) : (as.map write).mapM read? = some as := by
  induction as with
  | nil => rfl
  | cons a as ih =>
    rw [List.map_cons, List.mapM_cons, h a, ih]
    rfl

theorem nodeOf?_nodeEntry (n : Node) : nodeOf? (nodeEntry n) = some n := by
  have htext : ∀ label, text? (.text label) = some label := fun _ ↦ rfl
  have hlabels : (n.labels.map Datum.text).mapM text? = some n.labels :=
    mapM_map_of_forall htext n.labels
  have hnode : nodeOf? (nodeEntry n) = ((n.labels.map Datum.text).mapM text?).bind fun labels ↦
      some ⟨n.id, labels, n.properties⟩ := rfl
  rw [hnode, hlabels]
  rfl

theorem relationshipOf?_relationshipEntry (r : Relationship) :
    relationshipOf? (relationshipEntry r) = some r := rfl

/-- The data of a document say which graph they are of. -/
theorem ofDatum_toDatum (g : Graph) (metadata : Datum) :
    ofDatum (toDatum (.graph g (some metadata))) = .graph g (some metadata) := by
  have hnodes : (g.nodes.map nodeEntry).mapM nodeOf? = some g.nodes :=
    mapM_map_of_forall nodeOf?_nodeEntry g.nodes
  have hrels : (g.relationships.map relationshipEntry).mapM relationshipOf? = some g.relationships :=
    mapM_map_of_forall relationshipOf?_relationshipEntry g.relationships
  have hgraph : graph? (toDatum (.graph g (some metadata)))
      = ((g.nodes.map nodeEntry).mapM nodeOf?).bind fun nodes ↦
        ((g.relationships.map relationshipEntry).mapM relationshipOf?).bind fun rels ↦
          some (.graph ⟨nodes, rels⟩ (some metadata)) := rfl
  rw [ofDatum, hgraph, hnodes, hrels]
  rfl

/-! ## The text of a document -/

theorem readable_of_isText {depth : Nat} {d : Datum} (h : d.IsText) : Readable depth d := by
  cases d with
  | text s => exact .text s
  | _ => exact h.elim

theorem readable_stamp (depth : Nat) (stamp : Option String) :
    Readable depth (ToDatum.toDatum stamp) := by
  cases stamp with
  | none => exact .null
  | some time => exact .text time

theorem readable_stamps (depth : Nat) (created updated : Option String) :
    Readable (depth + 1) (stamps created updated) := by
  refine .map (by simp) ?_
  simp only [List.forall_mem_cons]
  exact ⟨.text _, readable_stamp depth created, readable_stamp depth updated,
    fun _ h ↦ absurd h List.not_mem_nil⟩

theorem readable_textMap (depth : Nat) {ps : Props} (h : ps.IsTextMap) :
    Readable (depth + 1) (.map ps) :=
  .map h.nodup fun e he ↦ readable_of_isText (h.isText e he)

theorem readable_nodeEntry (depth : Nat) {n : Node} (h : n.properties.IsTextMap) :
    Readable (depth + 2) (nodeEntry n).2 := by
  have hlabels : Readable (depth + 1) (.list (n.labels.map .text)) :=
    .list (List.forall_mem_map.mpr fun label _ ↦ .text label)
  refine .map (by simp) ?_
  simp only [List.forall_mem_cons]
  exact ⟨hlabels, readable_textMap depth h, fun _ h ↦ absurd h List.not_mem_nil⟩

theorem readable_relationshipEntry (depth : Nat) {r : Relationship} (h : r.properties.IsTextMap) :
    Readable (depth + 2) (relationshipEntry r).2 := by
  refine .map (by simp) ?_
  simp only [List.forall_mem_cons]
  exact ⟨.text _, .text _, .text _, readable_textMap depth h, fun _ h ↦ absurd h List.not_mem_nil⟩

/-- The data of a document are such that their text is read back. -/
theorem readable_toDatum {digest : Digest} (hg : g.Mapped digest) (depth : Nat)
    (created updated : Option String) :
    Readable (depth + 4) (toDatum (.graph g (some (stamps created updated)))) := by
  have hnodes : Readable (depth + 3) (.map (g.nodes.map nodeEntry)) := by
    have hids : (g.nodes.map nodeEntry).map Prod.fst = g.nodes.map (·.id) := by
      rw [List.map_map]
      rfl
    refine .map (hids ▸ hg.textual.nodes_nodup) (List.forall_mem_map.mpr fun n hn ↦ ?_)
    exact readable_nodeEntry depth (hg.node_keys n hn)
  have hrels : Readable (depth + 3) (.map (g.relationships.map relationshipEntry)) := by
    have hids : (g.relationships.map relationshipEntry).map Prod.fst
        = g.relationships.map (·.id) := by
      rw [List.map_map]
      rfl
    refine .map (hids ▸ hg.textual.relationships_nodup) (List.forall_mem_map.mpr fun r hr ↦ ?_)
    exact readable_relationshipEntry depth (hg.relationship_keys r hr)
  refine .map (by simp) ?_
  simp only [List.cons_append, List.nil_append, List.forall_mem_cons]
  exact ⟨hnodes, hrels, readable_stamps (depth + 2) created updated,
    fun _ h ↦ absurd h List.not_mem_nil⟩

end Content

namespace Store

/-- **A document is read back** as the graph that it was written for. -/
theorem load?_document {digest : Digest} {g : Graph} (hg : g.Mapped digest)
    (created updated : Option String) :
    load? (document (.graph g (some (Content.stamps created updated))))
      = some ⟨.graph g (some (Content.stamps created updated)), false⟩ := by
  have hread := Json.read_write Json.isPlain_file (Content.readable_toDatum hg 986 created updated)
  rw [load?, document, hread, Json.Style.arranged_of_unsorted rfl]
  simp only [Content.ofDatum_toDatum]

/-- A store with stamps can be saved, and has nothing to save then. -/
theorem exists_save_stamps (now : String) (g : Graph) (created updated : Option String)
    (dirty : Bool) : ∃ created',
      save now ⟨.graph g (some (Content.stamps created updated)), dirty⟩
        = .ok (⟨.graph g (some (Content.stamps created' (some now))), false⟩,
          document (.graph g (some (Content.stamps created' (some now))))) := by
  obtain ⟨created', hstamped⟩ := Content.exists_stamped_stamps now created updated
  refine ⟨created', ?_⟩
  rw [save, Content.stamp, hstamped]
  rfl

/-! ## Questions -/

/-- The stores answer every question alike. -/
structure AnswersAlike (s t : Store) : Prop where
  findRelationships : ∀ digest type fromLabel fromKey attrs,
    s.findRelationships digest type fromLabel fromKey attrs
      = t.findRelationships digest type fromLabel fromKey attrs
  expandCalls : ∀ functionId, s.expandCalls functionId = t.expandCalls functionId
  getNode : ∀ digest label key, s.getNode digest label key = t.getNode digest label key
  nodeById : ∀ id, s.nodeById id = t.nodeById id
  stats : s.stats = t.stats
  allRelationships : ∀ type, s.allRelationships type = t.allRelationships type
  functionNodes : s.functionNodes = t.functionNodes
  nodes : s.nodes = t.nodes

/-- What is asked of a store is asked of its graph, whatever its stamps are. -/
theorem Holds.answersAlike {s t : Store} {g : Graph} (hs : s.Holds g) (ht : t.Holds g) :
    s.AnswersAlike t := by
  obtain ⟨m, hs⟩ := hs
  obtain ⟨m', ht⟩ := ht
  have hlook : ∀ {α : Type} (onGraph : Graph → Except Fault α) (onDocument : Datum → Except Fault α),
      s.look onGraph onDocument = t.look onGraph onDocument := by
    intro α onGraph onDocument
    rw [look, look, hs, ht]
  have hnodeById : ∀ id, s.nodeById id = t.nodeById id := fun id ↦ hlook _ _
  constructor
  case findRelationships =>
    intro digest type fromLabel fromKey attrs
    rw [findRelationships, findRelationships, hlook]
  case getNode =>
    intro digest label key
    rw [getNode, getNode, hnodeById]
  case nodeById => exact hnodeById
  all_goals first | exact hlook _ _ | exact fun _ ↦ hlook _ _

end Store

end CodeAtlas
