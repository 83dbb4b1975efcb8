import CodeAtlas.Proofs.Graph.Completion
import CodeAtlas.Proofs.Files.Writes
import CodeAtlas.Proofs.Graph.GraphCalls

/-!
# Documents that a store can use

A store takes the document that it finds as it is, whatever its shape. So some documents make its calls
fail, now or after other calls have been made. A document is *usable* if none of that happens. This is
exactly so if what can be asked for is there (`Usable`):

* the nodes and the relationships are maps; each node has labels, and each relationship a type, that
  can be counted, and if the type is a text, a source;
* a relationship whose type and source a caller can name has a map of properties, and its target is
  there;
* a call one of whose ends is a text has both its ends and properties;
* a node that a relationship can be added to has properties.

The last point is about calls that are still to come. Adding a relationship does nothing if there is
one with its id, so it matters whether the id is free, or can be made free by deleting what has it
(`CanBeMade`). Every call keeps a document usable, since it only adds what is well formed, and frees
only ids that could be freed before.
-/

namespace CodeAtlas

namespace Graph

open Json (isWritable)

/-- A caller can name a node of this id. -/
def IsNamed (digest : Digest) (id : String) : Prop :=
  ∃ label key, isWritable (.map key) = true ∧ nodeId digest label key = id

namespace Damaged

variable {digest : Digest} {nodes rels : Props}

/-! ## Usable nodes and relationships -/

/-- A caller can ask for the relationship. -/
structure IsAskable (digest : Digest) (type source : String) (rel : Datum) : Prop where
  type_eq : rel.get? "type" = some (.text type)
  source_eq : rel.get? "source_id" = some (.text source)
  source_named : IsNamed digest source

/-- A caller can delete the relationship. -/
structure IsDeletable (digest : Digest) (type source target : String) (rel : Datum) : Prop
    extends IsAskable digest type source rel where
  target_eq : rel.get? "target_id" = some (.text target)
  target_named : IsNamed digest target

/-- Nothing of this id is there, or it can be deleted. -/
def CanBeMade (digest : Digest) (rels : Props) (id : String) : Prop :=
  ∀ e ∈ rels, e.1 = id → ∃ type source target, IsDeletable digest type source target e.2

/-- A relationship can be added that makes a caller ask for the properties of a node. -/
def CanBeLinked (digest : Digest) (rels : Props) (id : String) : Prop :=
  ∃ type source target attrs, IsNamed digest source ∧ IsNamed digest target ∧
    isWritable (.map attrs) = true ∧ (target = id ∨ type = calls ∧ source = id) ∧
    CanBeMade digest rels (relationshipId digest type source target attrs)

/-- Whatever is asked for is there, now and after further calls. -/
structure Usable (digest : Digest) (nodes rels : Props) : Prop where
  labels : ∀ e ∈ nodes, HasLabels e.2
  type : ∀ e ∈ rels, ∃ t, e.2.get? "type" = some t ∧ t.IsHashable
  source : ∀ e ∈ rels, ∀ type, e.2.get? "type" = some (.text type) →
    ∃ s, e.2.get? "source_id" = some s
  found : ∀ e ∈ rels, ∀ type source, IsAskable digest type source e.2 →
    (∃ ps, e.2.get? "properties" = some (.map ps)) ∧
      ∃ target, e.2.get? "target_id" = some target ∧ HasNode nodes target
  called : ∀ e ∈ rels, ∀ s, e.2.get? "type" = some (.text calls) → e.2.get? "source_id" = some s →
    ∃ u, e.2.get? "target_id" = some u ∧ ((∃ id, s = .text id ∨ u = .text id) →
      HasNode nodes s ∧ HasNode nodes u ∧ HasProperties e.2)
  linked : ∀ id data, Props.get? id nodes = some data → CanBeLinked digest rels id →
    HasProperties data

/-- A document with nodes and relationships that are usable. -/
def IsUsable (digest : Digest) (document : Datum) : Prop :=
  ∃ nodes rels, document.get? "nodes" = some (.map nodes) ∧
    document.get? "relationships" = some (.map rels) ∧ Usable digest nodes rels

/-! ## What is added and deleted -/

theorem hasLabels_nodeEntry (n : Node) : HasLabels (Content.nodeEntry n).2 := by
  refine ⟨.list (n.labels.map .text), n.labels.map .text, rfl, rfl, ?_⟩
  exact List.forall_mem_map.mpr fun _ _ ↦ trivial

theorem hasProperties_nodeEntry (n : Node) : HasProperties (Content.nodeEntry n).2 :=
  ⟨.map n.properties, n.properties, rfl, rfl⟩

theorem HasNode.addNew {id : Datum} (h : HasNode nodes id) (key : String) (value : Datum) :
    HasNode (Props.addNew key value nodes) id := by
  obtain ⟨name, data, rfl, hget, hproperties⟩ := h
  exact ⟨name, data, rfl, Props.get?_addNew_of_some hget, hproperties⟩

namespace Usable

theorem empty : Usable digest [] [] where
  labels _ he := absurd he List.not_mem_nil
  type _ he := absurd he List.not_mem_nil
  source _ he := absurd he List.not_mem_nil
  found _ he := absurd he List.not_mem_nil
  called _ he := absurd he List.not_mem_nil
  linked _ _ h := nomatch h

/-- A node that is added has labels and properties. -/
theorem addNode (h : Usable digest nodes rels) (n : Node) :
    Usable digest (Props.addNew n.id (Content.nodeEntry n).2 nodes) rels := by
  constructor
  case labels =>
    intro e he
    rw [Props.addNew] at he
    split at he
    · exact h.labels e he
    · rcases List.mem_append.mp he with he | he
      · exact h.labels e he
      · exact List.mem_singleton.mp he ▸ hasLabels_nodeEntry n
  case type => exact h.type
  case source => exact h.source
  case found =>
    intro e he type source hask
    obtain ⟨hps, target, htarget, hnode⟩ := h.found e he type source hask
    exact ⟨hps, target, htarget, hnode.addNew _ _⟩
  case called =>
    intro e he s htype hs
    obtain ⟨u, hu, hends⟩ := h.called e he s htype hs
    refine ⟨u, hu, fun htext ↦ ?_⟩
    obtain ⟨hsource, htarget, hps⟩ := hends htext
    exact ⟨hsource.addNew _ _, htarget.addNew _ _, hps⟩
  case linked =>
    intro id data hget hlinked
    rcases Props.get?_addNew hget with hold | ⟨-, rfl⟩
    · exact h.linked id data hold hlinked
    · exact hasProperties_nodeEntry n

/-- A relationship that is added has ends with properties: if they were there before, they could be
linked. -/
theorem addRelationship (h : Usable digest nodes rels) {type source target : String} {attrs : Props}
    (hattrs : isWritable (.map attrs) = true) (hsource : IsNamed digest source)
    (htarget : IsNamed digest target) (hfrom : ∃ data, Props.get? source nodes = some data)
    (hto : ∃ data, Props.get? target nodes = some data) :
    Usable digest nodes (Props.addNew (relationshipId digest type source target attrs)
      (Content.relationshipEntry ⟨relationshipId digest type source target attrs, type, source,
        target, attrs⟩).2 rels) := by
  rw [Props.addNew]
  split
  · exact h
  · rename_i hnew
    let r : Relationship := ⟨relationshipId digest type source target attrs, type, source, target,
      attrs⟩
    have hfree : CanBeMade digest rels r.id := by
      intro e he heq
      have hold : Props.contains r.id rels = true :=
        List.any_eq_true.mpr ⟨e, he, beq_iff_eq.mpr heq⟩
      exact absurd hold hnew
    have hend : ∀ id data, Props.get? id nodes = some data →
        (target = id ∨ type = calls ∧ source = id) → HasNode nodes (.text id) := by
      intro id data hget hid
      have hproperties := h.linked id data hget
        ⟨type, source, target, attrs, hsource, htarget, hattrs, hid, hfree⟩
      exact ⟨id, data, rfl, hget, hproperties⟩
    obtain ⟨sourceData, hfrom⟩ := hfrom
    obtain ⟨targetData, hto⟩ := hto
    have hnode : HasNode nodes (.text target) := hend target targetData hto (Or.inl rfl)
    constructor
    case labels => exact h.labels
    case type =>
      exact List.forall_mem_append.mpr ⟨h.type,
        List.forall_mem_singleton.mpr ⟨.text type, rfl, trivial⟩⟩
    case source =>
      exact List.forall_mem_append.mpr ⟨h.source,
        List.forall_mem_singleton.mpr fun _ _ ↦ ⟨.text source, rfl⟩⟩
    case found =>
      exact List.forall_mem_append.mpr ⟨h.found, List.forall_mem_singleton.mpr fun _ _ _ ↦
        ⟨⟨attrs, rfl⟩, .text target, rfl, hnode⟩⟩
    case called =>
      refine List.forall_mem_append.mpr ⟨h.called, List.forall_mem_singleton.mpr ?_⟩
      intro s htype hs
      obtain rfl : type = calls := Datum.text.inj (Option.some.inj htype)
      obtain rfl : .text source = s := Option.some.inj hs
      exact ⟨.text target, rfl, fun _ ↦ ⟨hend source sourceData hfrom (Or.inr ⟨rfl, rfl⟩), hnode,
        .map attrs, attrs, rfl, rfl⟩⟩
    case linked =>
      rintro id data hget ⟨type', source', target', attrs', hs, ht, ha, hid, hmade⟩
      refine h.linked id data hget ⟨type', source', target', attrs', hs, ht, ha, hid, ?_⟩
      exact fun e he ↦ hmade e (List.mem_append_left _ he)

/-- What remains is usable, and an id that is free now was free before or could be made free. -/
theorem spared (h : Usable digest nodes rels) {type source target : String} {attrs : Props}
    (hsource : IsNamed digest source) (htarget : IsNamed digest target)
    (hall : ∀ e ∈ rels, ∃ doomed, isDoomed type source target attrs e.2 = .ok doomed) :
    Usable digest nodes (spared type source target attrs rels) := by
  have hmem : ∀ e ∈ Damaged.spared type source target attrs rels, e ∈ rels :=
    fun e he ↦ List.mem_of_mem_filter he
  constructor
  case labels => exact h.labels
  case type => exact fun e he ↦ h.type e (hmem e he)
  case source => exact fun e he ↦ h.source e (hmem e he)
  case found => exact fun e he ↦ h.found e (hmem e he)
  case called => exact fun e he ↦ h.called e (hmem e he)
  case linked =>
    rintro id data hget ⟨type', source', target', attrs', hs, ht, ha, hid, hmade⟩
    refine h.linked id data hget ⟨type', source', target', attrs', hs, ht, ha, hid, ?_⟩
    intro e he heq
    obtain ⟨doomed, hdoomed⟩ := hall e he
    cases doomed with
    | true =>
      obtain ⟨htype_eq, hsource_eq, htarget_eq⟩ := eq_of_isDoomed hdoomed
      exact ⟨type, source, target, ⟨⟨htype_eq, hsource_eq, hsource⟩, htarget_eq, htarget⟩⟩
    | false =>
      have hspared : e ∈ Damaged.spared type source target attrs rels :=
        List.mem_filter.mpr ⟨he, by rw [isSpared, hdoomed]; rfl⟩
      exact hmade e hspared heq

/-! ## Questions -/

variable {document : Datum} {e : String × Datum}

theorem exists_edge? (h : Usable digest nodes rels)
    (hnodes : document.get? "nodes" = some (.map nodes)) (he : e ∈ rels) {source : String}
    (hsource : IsNamed digest source) (type : String) (attrs : Props) :
    ∃ o, edge? type source attrs document e.2 = .ok o := by
  obtain ⟨t, ht, -⟩ := h.type e he
  refine Damaged.exists_edge?.mpr ⟨t, ht, ?_⟩
  rintro rfl
  obtain ⟨s, hs⟩ := h.source e he type ht
  refine ⟨s, hs, ?_⟩
  rintro rfl
  obtain ⟨⟨ps, hps⟩, target, htarget, name, data, rfl, hget, hproperties⟩ :=
    h.found e he type source ⟨ht, hs, hsource⟩
  obtain ⟨b, hb⟩ : ∃ b, matchesAttrs (.map ps) attrs = .ok b :=
    exists_matchesAttrs.mpr (Or.inr ⟨ps, rfl⟩)
  have hitem : Lookup.item (.text name) (.map nodes) = .ok data := item_eq_ok.mpr ⟨name, rfl, hget⟩
  exact ⟨.map ps, hps, b, hb, fun _ ↦
    ⟨⟨.map nodes, .text name, data, hnodes, htarget, hitem, hproperties⟩, ps, rfl⟩⟩

theorem exists_isDoomed (h : Usable digest nodes rels) (he : e ∈ rels) {source : String}
    (hsource : IsNamed digest source) (type target : String) (attrs : Props) :
    ∃ b, isDoomed type source target attrs e.2 = .ok b := by
  obtain ⟨t, ht, -⟩ := h.type e he
  refine Damaged.exists_isDoomed.mpr ⟨t, ht, ?_⟩
  rintro rfl
  obtain ⟨s, hs⟩ := h.source e he type ht
  refine ⟨s, hs, ?_⟩
  rintro rfl
  obtain ⟨⟨ps, hps⟩, u, hu, -⟩ := h.found e he type source ⟨ht, hs, hsource⟩
  exact ⟨u, hu, fun _ ↦ ⟨.map ps, hps, Or.inr ⟨ps, rfl⟩⟩⟩

theorem exists_call? (h : Usable digest nodes rels)
    (hnodes : document.get? "nodes" = some (.map nodes)) (he : e ∈ rels) (functionId : String) :
    ∃ o, call? functionId document e.1 e.2 = .ok o := by
  obtain ⟨t, ht, -⟩ := h.type e he
  refine Damaged.exists_call?.mpr ⟨t, ht, ?_⟩
  rintro rfl
  obtain ⟨s, hs⟩ := h.source e he calls ht
  obtain ⟨u, hu, hends⟩ := h.called e he s ht hs
  refine ⟨s, hs, u, hu, fun hasked ↦ ?_⟩
  obtain ⟨hfrom, hto, hproperties⟩ := hends ⟨functionId, hasked⟩
  have hnode : ∀ x, HasNode nodes x → ∃ n, nodeAt x document = .ok n :=
    fun x hx ↦ (exists_nodeAt hnodes h.labels).mpr hx
  exact ⟨hnode s hfrom, exists_relationshipOf.mpr ⟨⟨_, ht⟩, ⟨s, hs⟩, ⟨u, hu⟩, hproperties⟩,
    hnode u hto⟩

end Usable

end Damaged

end Graph

/-! ## Runs -/

open Graph Graph.Damaged
open Json (isWritable)

/-- The arguments that go into an id can be written. -/
def GraphCall.IsWritable : GraphCall → Prop
  | mergeNode _ key => isWritable (.map key) = true
  | mergeRelationship _ _ fromKey _ toKey attrs => isWritable (.map fromKey) = true ∧
    isWritable (.map toKey) = true ∧ isWritable (.map (attrs.getD [])) = true
  | deleteRelationship _ _ fromKey _ toKey _ => isWritable (.map fromKey) = true ∧
    isWritable (.map toKey) = true
  | findRelationships _ _ fromKey _ => isWritable (.map fromKey) = true
  | _ => True

namespace Rehearsal

/-- Every call is answered, one after the other. -/
def Completes (r : Rehearsal) : List GraphCall → Prop
  | [] => True
  | c :: calls => (c.run r).1 = .ok () ∧ (c.run r).2.Completes calls

end Rehearsal

namespace Content

/-- What is made out of the items of a list is the list again. -/
theorem map_eq_of_mapM {α β : Type} {read? : β → Option α} {write : α → β}
    (h : ∀ b a, read? b = some a → write a = b) {bs : List β} {as : List α}
    (hall : bs.mapM read? = some as) : as.map write = bs := by
  induction bs generalizing as with
  | nil =>
    obtain rfl : [] = as := Option.some.inj hall
    rfl
  | cons b bs ih =>
    rw [List.mapM_cons] at hall
    obtain ⟨a, ha, hall⟩ := Option.bind_eq_some_iff.mp hall
    obtain ⟨as', has, hall⟩ := Option.bind_eq_some_iff.mp hall
    obtain rfl : a :: as' = as := Option.some.inj hall
    rw [List.map_cons, h b a ha, ih has]

theorem nodeEntry_nodeOf? {e : String × Datum} {n : Node} (h : nodeOf? e = some n) :
    nodeEntry n = e := by
  rw [nodeOf?.eq_def] at h
  split at h
  · rename_i id labels properties
    obtain ⟨names, hnames, h⟩ := Option.bind_eq_some_iff.mp h
    obtain rfl : ⟨id, names, properties⟩ = n := Option.some.inj h
    have hlabels : names.map Datum.text = labels := by
      refine map_eq_of_mapM (fun d s hs ↦ ?_) hnames
      cases d with
      | text t => exact congrArg Datum.text (Option.some.inj hs).symm
      | _ => exact nomatch hs
    rw [nodeEntry, hlabels]
  · exact nomatch h

theorem relationshipEntry_relationshipOf? {e : String × Datum} {r : Relationship}
    (h : relationshipOf? e = some r) : relationshipEntry r = e := by
  rw [relationshipOf?.eq_def] at h
  split at h
  · rename_i id type source target properties
    obtain rfl : ⟨id, type, source, target, properties⟩ = r := Option.some.inj h
    rfl
  · exact nomatch h

/-- A document is taken as it is. -/
theorem toDatum_ofDatum (document : Datum) : (ofDatum document).toDatum = document := by
  rw [ofDatum]
  cases hgraph : graph? document with
  | none => rfl
  | some c =>
    rw [Option.getD_some]
    rw [graph?.eq_def] at hgraph
    split at hgraph
    · rename_i nodes rels rest
      obtain ⟨ns, hns, hgraph⟩ := Option.bind_eq_some_iff.mp hgraph
      obtain ⟨rs, hrs, hgraph⟩ := Option.bind_eq_some_iff.mp hgraph
      obtain ⟨metadata, hmetadata, hgraph⟩ := Option.bind_eq_some_iff.mp hgraph
      obtain rfl : .graph ⟨ns, rs⟩ metadata = c := Option.some.inj hgraph
      have hnodes : ns.map nodeEntry = nodes := map_eq_of_mapM (fun _ _ ↦ nodeEntry_nodeOf?) hns
      have hrels : rs.map relationshipEntry = rels :=
        map_eq_of_mapM (fun _ _ ↦ relationshipEntry_relationshipOf?) hrs
      simp only [toDatum, hnodes, hrels]
      rw [metadata?.eq_def] at hmetadata
      split at hmetadata
      · obtain rfl := Option.some.inj hmetadata
        rfl
      · obtain rfl := Option.some.inj hmetadata
        rfl
      · exact absurd hmetadata (by rintro ⟨⟩)
    · exact absurd hgraph (by rintro ⟨⟩)

theorem isUsable_of_parts {digest : Digest} {c c' : Content} (h : c.parts = c'.parts)
    (hc : IsUsable digest c.toDatum) : IsUsable digest c'.toDatum := by
  obtain ⟨nodes, rels, hnodes, hrels, husable⟩ := hc
  obtain ⟨hnodes', hrels'⟩ := Prod.mk.inj h
  exact ⟨nodes, rels, hnodes'.symm.trans hnodes, hrels'.symm.trans hrels, husable⟩

end Content

theorem Graph.checkWritable_eq_ok {parts : List Props}
    (h : ∀ p ∈ parts, isWritable (.map p) = true) : checkWritable parts = .ok () := by
  rw [checkWritable, if_pos (List.all_eq_true.mpr h)]

namespace Store

variable {digest : Digest} {nodes rels : Props}

theorem exists_addNode {c : Content} (hparts : c.parts = (some (.map nodes), some (.map rels)))
    (n : Node) : ∃ c', addNode n c = .ok c' ∧ c'.parts
      = (some (.map (Props.addNew n.id (Content.nodeEntry n).2 nodes)), some (.map rels)) := by
  obtain ⟨hnodes, hrels⟩ := Prod.mk.inj hparts
  obtain ⟨document, hmerge, hnodes', hrels'⟩ := exists_mergeNode n hnodes
  rw [← toDatum_addNode] at hmerge
  obtain ⟨c', hadd, rfl⟩ := map_eq_ok.mp hmerge
  exact ⟨c', hadd, Prod.ext hnodes' (hrels'.trans hrels)⟩

theorem exists_addRelationship {c : Content}
    (hparts : c.parts = (some (.map nodes), some (.map rels))) (r : Relationship) :
    ∃ c', addRelationship r c = .ok c' ∧ c'.parts = (some (.map nodes),
      some (.map (Props.addNew r.id (Content.relationshipEntry r).2 rels))) := by
  obtain ⟨hnodes, hrels⟩ := Prod.mk.inj hparts
  obtain ⟨document, hmerge, hrels', hnodes'⟩ := exists_mergeRelationship r hrels
  rw [← toDatum_addRelationship] at hmerge
  obtain ⟨c', hadd, rfl⟩ := map_eq_ok.mp hmerge
  exact ⟨c', hadd, Prod.ext (hnodes'.trans hnodes) hrels'⟩

/-- The nodes after the ends of a relationship have been merged. -/
def withEnds (digest : Digest) (fromLabel : String) (fromKey : Props) (toLabel : String)
    (toKey nodes : Props) : Props :=
  Props.addNew (nodeId digest toLabel toKey) (Content.nodeEntry (keyNode digest toLabel toKey)).2
    (Props.addNew (nodeId digest fromLabel fromKey)
      (Content.nodeEntry (keyNode digest fromLabel fromKey)).2 nodes)

/-- A merge of a relationship merges its ends first. -/
theorem exists_mergeRelationship_eq (digest : Digest) {s : Store}
    (hparts : s.content.parts = (some (.map nodes), some (.map rels))) (type fromLabel : String)
    {fromKey : Props} (toLabel : String) {toKey attrs : Props}
    (hfrom : isWritable (.map fromKey) = true) (hto : isWritable (.map toKey) = true)
    (hattrs : isWritable (.map attrs) = true) :
    let r := keyRelationship digest type fromLabel fromKey toLabel toKey attrs
    ∃ s', s.mergeRelationship digest type fromLabel fromKey toLabel toKey attrs = (.ok r.id, s') ∧
      s'.content.parts = (some (.map (withEnds digest fromLabel fromKey toLabel toKey nodes)),
        some (.map (Props.addNew r.id (Content.relationshipEntry r).2 rels))) := by
  intro r
  obtain ⟨c₁, hc₁, hparts₁⟩ := exists_addNode hparts (keyNode digest fromLabel fromKey)
  obtain ⟨c₂, hc₂, hparts₂⟩ := exists_addNode hparts₁ (keyNode digest toLabel toKey)
  obtain ⟨c₃, hc₃, hparts₃⟩ := exists_addRelationship hparts₂ r
  have hsource : s.withNode digest fromLabel fromKey = .ok { s with content := c₁ } := by
    rw [withNode, checkWritable_eq_ok (List.forall_mem_singleton.mpr hfrom), hc₁]
    rfl
  have htarget : ({ s with content := c₁ } : Store).withNode digest toLabel toKey
      = .ok { s with content := c₂ } := by
    rw [withNode, checkWritable_eq_ok (List.forall_mem_singleton.mpr hto), hc₂]
    rfl
  refine ⟨⟨c₃, true⟩, ?_, hparts₃⟩
  simp only [mergeRelationship, hsource, htarget,
    checkWritable_eq_ok (List.forall_mem_singleton.mpr hattrs), bind, Except.bind]
  rw [hc₃]

theorem exists_deleteRelationship_eq {s : Store} {type fromLabel toLabel : String}
    {fromKey toKey attrs : Props} {document : Datum} {n : Nat}
    (hwritable : ∀ key ∈ [fromKey, toKey], isWritable (.map key) = true)
    (h : Damaged.deleteRelationship type (nodeId digest fromLabel fromKey)
      (nodeId digest toLabel toKey) attrs s.content.toDatum = .ok (document, n)) :
    ∃ s', s.deleteRelationship digest type fromLabel fromKey toLabel toKey attrs = .ok (s', n) ∧
      s'.content.toDatum = document := by
  have hdocument := s.deleteRelationship_eq digest type fromLabel fromKey toLabel toKey attrs
  rw [checkWritable_eq_ok hwritable] at hdocument
  obtain ⟨⟨s', n'⟩, hdelete, hresult⟩ := map_eq_ok.mp (hdocument.trans h)
  obtain ⟨rfl, rfl⟩ := Prod.mk.inj hresult
  exact ⟨s', hdelete, rfl⟩

end Store

namespace GraphCall

variable {r : Rehearsal}

theorem exists_of_outcome {α : Type} {x : Except Fault α × Rehearsal} (h : (outcome x).1 = .ok ()) :
    ∃ a, x.1 = .ok a := by
  obtain ⟨a, ha, -⟩ := map_eq_ok.mp h
  exact ⟨a, ha⟩

/-- **A step**: a call on a usable document is answered and leaves a usable one. -/
theorem run_of_isUsable (h : IsUsable Text.Digest.ofText r.store.content.toDatum) {c : GraphCall}
    (hc : c.IsWritable) : (c.run r).1 = .ok () ∧
      IsUsable Text.Digest.ofText (c.run r).2.store.content.toDatum := by
  have hsame : ∀ {α : Type} (x : Except Fault α), (∃ a, x = .ok a) →
      (outcome (x, r)).1 = .ok () ∧
        IsUsable Text.Digest.ofText (outcome (x, r)).2.store.content.toDatum := by
    rintro α x ⟨a, rfl⟩
    exact ⟨rfl, h⟩
  obtain ⟨nodes, rels, hnodes, hrels, husable⟩ := h
  have hparts : r.store.content.parts = (some (.map nodes), some (.map rels)) :=
    Prod.ext hnodes hrels
  cases c with
  | setUp =>
    refine hsame _ ?_
    rw [Store.nodeCount_eq, nodeCount, field_eq_ok.mpr hnodes]
    exact ⟨nodes.length, rfl⟩
  | stats =>
    refine hsame _ ?_
    rw [Store.stats_eq]
    exact exists_stats.mpr ⟨nodes, rels, hnodes, hrels, husable.labels, husable.type⟩
  | findRelationships type fromLabel fromKey attrs =>
    refine hsame _ ?_
    rw [Store.findRelationships_eq, checkWritable_eq_ok (List.forall_mem_singleton.mpr hc)]
    exact (exists_findRelationships hrels).mpr fun e he ↦
      husable.exists_edge? hnodes he ⟨fromLabel, fromKey, hc, rfl⟩ type _
  | expandCalls functionId =>
    refine hsame _ ?_
    rw [Store.expandCalls_eq]
    exact (exists_expandCalls hrels).mpr fun e he ↦ husable.exists_call? hnodes he functionId
  | mergeNode label key =>
    obtain ⟨content, hadd, hparts'⟩ := Store.exists_addNode hparts
      (keyNode Text.Digest.ofText label key)
    have hmerge : r.store.mergeNode Text.Digest.ofText label key
        = .ok (⟨content, true⟩, nodeId Text.Digest.ofText label key) := by
      rw [Store.mergeNode, checkWritable_eq_ok (List.forall_mem_singleton.mpr hc)]
      simp only [bind, Except.bind, hadd]
      rfl
    rw [run, Rehearsal.serve, hmerge]
    obtain ⟨hnodes', hrels'⟩ := Prod.mk.inj hparts'
    exact ⟨rfl, _, rels, hnodes', hrels', husable.addNode _⟩
  | mergeRelationship type fromLabel fromKey toLabel toKey attrs =>
    obtain ⟨hfrom, hto, hattrs⟩ := hc
    obtain ⟨s', hmerge, hparts'⟩ := Store.exists_mergeRelationship_eq Text.Digest.ofText hparts type
      fromLabel toLabel hfrom hto hattrs
    rw [run, Rehearsal.serve, hmerge]
    obtain ⟨hnodes', hrels'⟩ := Prod.mk.inj hparts'
    refine ⟨rfl, _, _, hnodes', hrels', ?_⟩
    have hends : Usable Text.Digest.ofText
        (Store.withEnds Text.Digest.ofText fromLabel fromKey toLabel toKey nodes) rels :=
      (husable.addNode (keyNode Text.Digest.ofText fromLabel fromKey)).addNode
        (keyNode Text.Digest.ofText toLabel toKey)
    obtain ⟨data, hdata⟩ := Props.exists_get?_addNew (nodeId Text.Digest.ofText fromLabel fromKey)
      (Content.nodeEntry (keyNode Text.Digest.ofText fromLabel fromKey)).2 nodes
    exact hends.addRelationship hattrs ⟨fromLabel, fromKey, hfrom, rfl⟩ ⟨toLabel, toKey, hto, rfl⟩
      ⟨data, Props.get?_addNew_of_some hdata⟩ (Props.exists_get?_addNew _ _ _)
  | deleteRelationship type fromLabel fromKey toLabel toKey attrs =>
    have hnamed : IsNamed Text.Digest.ofText (nodeId Text.Digest.ofText fromLabel fromKey) :=
      ⟨fromLabel, fromKey, hc.1, rfl⟩
    obtain ⟨⟨document, n⟩, hdelete⟩ := (exists_deleteRelationship hrels).mpr fun e he ↦
      husable.exists_isDoomed he hnamed type (nodeId Text.Digest.ofText toLabel toKey) (attrs.getD [])
    obtain ⟨s', hs', rfl⟩ := Store.exists_deleteRelationship_eq (List.forall_mem_cons.mpr
      ⟨hc.1, List.forall_mem_singleton.mpr hc.2⟩) hdelete
    obtain ⟨rels', hrels', hall, -, hspared, hkept⟩ := deleteRelationship_eq_ok hdelete
    obtain rfl : rels = rels' := Datum.map.inj (Option.some.inj (hrels.symm.trans hrels'))
    rw [run, Rehearsal.serve, hs']
    exact ⟨rfl, nodes, _, hkept.trans hnodes, hspared,
      husable.spared hnamed ⟨toLabel, toKey, hc.2, rfl⟩ hall⟩
  | clear =>
    refine ⟨rfl, Content.isUsable_of_parts r.parts_clearStore.symm ?_⟩
    exact ⟨[], [], rfl, rfl, Usable.empty⟩
  | flush =>
    rw [run, Rehearsal.serve]
    refine ⟨rfl, ?_⟩
    split
    · exact Content.isUsable_of_parts r.parts_trySave.symm ⟨nodes, rels, hnodes, hrels, husable⟩
    · exact ⟨nodes, rels, hnodes, hrels, husable⟩

end GraphCall

namespace Rehearsal

/-- Whatever it is asked, every call is answered. -/
def NeverFails (r : Rehearsal) : Prop :=
  ∀ calls : List GraphCall, (∀ c ∈ calls, c.IsWritable) → r.Completes calls

variable {r : Rehearsal} {nodes rels : Props}

theorem neverFails_of_isUsable (h : IsUsable Text.Digest.ofText r.store.content.toDatum) :
    r.NeverFails := by
  intro calls hcalls
  induction calls generalizing r with
  | nil => trivial
  | cons c calls ih =>
    obtain ⟨hc, hcalls⟩ := List.forall_mem_cons.mp hcalls
    obtain ⟨hanswer, hafter⟩ := GraphCall.run_of_isUsable h hc
    exact ⟨hanswer, ih hafter hcalls⟩

/-! ## What a document needs -/

namespace NeverFails

variable (h : r.NeverFails)

include h

theorem run {c : GraphCall} (hc : c.IsWritable) : (c.run r).1 = .ok () ∧ (c.run r).2.NeverFails := by
  constructor
  · exact (h [c] (List.forall_mem_singleton.mpr hc)).1
  · intro calls hcalls
    exact (h (c :: calls) (List.forall_mem_cons.mpr ⟨hc, hcalls⟩)).2

theorem counted : ∃ nodes rels, r.store.content.parts = (some (.map nodes), some (.map rels)) ∧
    (∀ e ∈ nodes, HasLabels e.2) ∧ ∀ e ∈ rels, ∃ t, e.2.get? "type" = some t ∧ t.IsHashable := by
  have hstats : ∃ x, r.store.stats = .ok x := GraphCall.exists_of_outcome (h.run (c := .stats) trivial).1
  rw [Store.stats_eq] at hstats
  obtain ⟨nodes, rels, hnodes, hrels, hlabels, htypes⟩ := exists_stats.mp hstats
  exact ⟨nodes, rels, Prod.ext hnodes hrels, hlabels, htypes⟩

variable (hparts : r.store.content.parts = (some (.map nodes), some (.map rels)))

include hparts

theorem labels : ∀ e ∈ nodes, HasLabels e.2 := by
  obtain ⟨nodes', rels', hparts', hlabels, -⟩ := h.counted
  obtain ⟨hnodes, -⟩ := Prod.mk.inj (hparts.symm.trans hparts')
  obtain rfl : nodes = nodes' := Datum.map.inj (Option.some.inj hnodes)
  exact hlabels

variable {e : String × Datum} (he : e ∈ rels)

include he

theorem exists_edge? {source : String} (hsource : IsNamed Text.Digest.ofText source) (type : String)
    (attrs : Props) : ∃ o, edge? type source attrs r.store.content.toDatum e.2 = .ok o := by
  obtain ⟨label, key, hkey, rfl⟩ := hsource
  have hfind : ∃ x, r.store.findRelationships Text.Digest.ofText type label key attrs = .ok x :=
    GraphCall.exists_of_outcome (h.run (c := .findRelationships type label key (some attrs)) hkey).1
  rw [Store.findRelationships_eq, checkWritable_eq_ok (List.forall_mem_singleton.mpr hkey)] at hfind
  exact (exists_findRelationships (Prod.mk.inj hparts).2).mp hfind e he

theorem exists_call? (functionId : String) :
    ∃ o, call? functionId r.store.content.toDatum e.1 e.2 = .ok o := by
  have hexpand : ∃ x, r.store.expandCalls functionId = .ok x :=
    GraphCall.exists_of_outcome (h.run (c := .expandCalls functionId) trivial).1
  rw [Store.expandCalls_eq] at hexpand
  exact (exists_expandCalls (Prod.mk.inj hparts).2).mp hexpand e he

theorem exists_source {type : String} (htype : e.2.get? "type" = some (.text type)) :
    ∃ s, e.2.get? "source_id" = some s := by
  have hsome : IsNamed Text.Digest.ofText (nodeId Text.Digest.ofText "" []) := ⟨"", [], rfl, rfl⟩
  obtain ⟨t, ht, hmore⟩ := Damaged.exists_edge?.mp (h.exists_edge? hparts he hsome type [])
  obtain ⟨s, hs, -⟩ := hmore (Option.some.inj (ht.symm.trans htype))
  exact ⟨s, hs⟩

/-- What a caller can ask for has properties with any attributes, and a target. -/
theorem found {type source : String} (hask : IsAskable Text.Digest.ofText type source e.2) :
    (∃ ps, e.2.get? "properties" = some (.map ps)) ∧
      ∃ target, e.2.get? "target_id" = some target ∧ HasNode nodes target := by
  have hanswer : ∀ attrs, ∃ ps, e.2.get? "properties" = some ps ∧
      ∃ b, matchesAttrs ps attrs = .ok b ∧ (b = true → ∃ nodes u data,
        r.store.content.toDatum.get? "nodes" = some nodes ∧ e.2.get? "target_id" = some u ∧
          Lookup.item u nodes = .ok data ∧ HasProperties data) := by
    intro attrs
    obtain ⟨t, ht, hmore⟩ :=
      Damaged.exists_edge?.mp (h.exists_edge? hparts he hask.source_named type attrs)
    obtain ⟨s, hs, hmore⟩ := hmore (Option.some.inj (ht.symm.trans hask.type_eq))
    obtain ⟨ps, hps, b, hb, hfound⟩ := hmore (Option.some.inj (hs.symm.trans hask.source_eq))
    exact ⟨ps, hps, b, hb, fun hmatches ↦ (hfound hmatches).1⟩
  constructor
  · obtain ⟨ps, hps, b, hb, -⟩ := hanswer [("", .null)]
    rcases exists_matchesAttrs.mp ⟨b, hb⟩ with hnone | ⟨qs, rfl⟩
    · exact nomatch hnone
    · exact ⟨qs, hps⟩
  · obtain ⟨ps, hps, b, hb, hfound⟩ := hanswer []
    obtain ⟨d, target, data, hd, htarget, hdata, hproperties⟩ := hfound (Except.ok.inj hb).symm
    obtain rfl : d = .map nodes := Option.some.inj (hd.symm.trans (Prod.mk.inj hparts).1)
    obtain ⟨name, rfl, hget⟩ := item_eq_ok.mp hdata
    exact ⟨.text name, htarget, name, data, rfl, hget, hproperties⟩

theorem called {s : Datum}
    (htype : e.2.get? "type" = some (.text calls)) (hs : e.2.get? "source_id" = some s) :
    ∃ u, e.2.get? "target_id" = some u ∧ ((∃ id, s = .text id ∨ u = .text id) →
      HasNode nodes s ∧ HasNode nodes u ∧ HasProperties e.2) := by
  have hanswer : ∀ functionId, ∃ u, e.2.get? "target_id" = some u ∧
      (s = .text functionId ∨ u = .text functionId →
        HasNode nodes s ∧ HasNode nodes u ∧ HasProperties e.2) := by
    intro functionId
    obtain ⟨t, ht, hmore⟩ := Damaged.exists_call?.mp (h.exists_call? hparts he functionId)
    obtain ⟨s', hs', u, hu, hends⟩ := hmore (Option.some.inj (ht.symm.trans htype))
    obtain rfl : s = s' := Option.some.inj (hs.symm.trans hs')
    refine ⟨u, hu, fun hasked ↦ ?_⟩
    obtain ⟨hfrom, hself, hto⟩ := hends hasked
    have hnode : ∀ x, (∃ n, nodeAt x r.store.content.toDatum = .ok n) → HasNode nodes x :=
      fun x hx ↦ (exists_nodeAt (Prod.mk.inj hparts).1 (h.labels hparts)).mp hx
    exact ⟨hnode s hfrom, hnode u hto, (exists_relationshipOf.mp hself).2.2.2⟩
  obtain ⟨u, hu, -⟩ := hanswer ""
  refine ⟨u, hu, ?_⟩
  rintro ⟨id, hasked⟩
  obtain ⟨u', hu', hends⟩ := hanswer id
  obtain rfl : u = u' := Option.some.inj (hu.symm.trans hu')
  exact hends hasked

omit he in
/-- A relationship that is not there is added, and what is asked about it needs the properties of its
ends. -/
theorem hasProperties_of_new {type fromLabel toLabel id : String} {fromKey toKey attrs : Props}
    {data : Datum} (hfrom : isWritable (.map fromKey) = true) (hto : isWritable (.map toKey) = true)
    (hattrs : isWritable (.map attrs) = true) (hget : Props.get? id nodes = some data)
    (hid : nodeId Text.Digest.ofText toLabel toKey = id ∨
      type = calls ∧ nodeId Text.Digest.ofText fromLabel fromKey = id)
    (hnew : Props.contains (keyRelationship Text.Digest.ofText type fromLabel fromKey toLabel toKey
      attrs).id rels = false) : HasProperties data := by
  let q := keyRelationship Text.Digest.ofText type fromLabel fromKey toLabel toKey attrs
  obtain ⟨s', hmerge, hparts'⟩ := Store.exists_mergeRelationship_eq Text.Digest.ofText hparts type
    fromLabel toLabel hfrom hto hattrs
  have hafter : Rehearsal.NeverFails { r with store := s' } := by
    have hrun := (h.run (c := .mergeRelationship type fromLabel fromKey toLabel toKey (some attrs))
      ⟨hfrom, hto, hattrs⟩).2
    rwa [GraphCall.run, serve, Option.getD_some, hmerge] at hrun
  have hget' : Props.get? id (Store.withEnds Text.Digest.ofText fromLabel fromKey toLabel toKey nodes)
      = some data := Props.get?_addNew_of_some (Props.get?_addNew_of_some hget)
  have hmem : (q.id, (Content.relationshipEntry q).2)
      ∈ Props.addNew q.id (Content.relationshipEntry q).2 rels := by
    rw [Props.addNew, hnew]
    exact List.mem_append_right _ List.mem_cons_self
  have hnode : ∀ x, HasNode (Store.withEnds Text.Digest.ofText fromLabel fromKey toLabel toKey nodes)
      x → x = .text id → HasProperties data := by
    rintro x ⟨name, data', rfl, hdata, hproperties⟩ hx
    obtain rfl : name = id := Datum.text.inj hx
    exact Option.some.inj (hdata.symm.trans hget') ▸ hproperties
  rcases hid with htarget | ⟨rfl, hsource⟩
  · obtain ⟨-, target, htarget', hends⟩ := hafter.found hparts' hmem
      ⟨rfl, rfl, fromLabel, fromKey, hfrom, rfl⟩
    exact hnode target hends ((Option.some.inj htarget').symm.trans (congrArg Datum.text htarget))
  · obtain ⟨u, -, hends⟩ := hafter.called hparts' hmem rfl rfl
    have hsource' := (hends ⟨_, Or.inl rfl⟩).1
    exact hnode _ hsource' (congrArg Datum.text hsource)

/-- A relationship that can be deleted is deleted, and the calls go on being answered. -/
theorem exists_deleted {type source target : String}
    (hdeletable : IsDeletable Text.Digest.ofText type source target e.2) :
    ∃ r' : Rehearsal, ∃ rels', r'.NeverFails ∧
      r'.store.content.parts = (some (.map nodes), some (.map rels')) ∧ rels' ⊆ rels ∧
      rels'.length < rels.length := by
  obtain ⟨⟨ps, hps⟩, -⟩ := h.found hparts he hdeletable.toIsAskable
  have hdoomed : isDoomed type source target [] e.2 = .ok true :=
    isDoomed_of_eq hdeletable.type_eq hdeletable.source_eq hdeletable.target_eq hps
  obtain ⟨fromLabel, fromKey, hfrom, rfl⟩ := hdeletable.source_named
  obtain ⟨toLabel, toKey, hto, rfl⟩ := hdeletable.target_named
  obtain ⟨hanswer, hafter⟩ :=
    h.run (c := .deleteRelationship type fromLabel fromKey toLabel toKey none) ⟨hfrom, hto⟩
  rw [GraphCall.run, serve, Option.getD_none] at hanswer hafter
  cases hdelete : r.store.deleteRelationship Text.Digest.ofText type fromLabel fromKey toLabel toKey
      [] with
  | error e => exact absurd hanswer (by rw [hdelete]; rintro ⟨⟩)
  | ok result =>
    obtain ⟨s', n⟩ := result
    rw [hdelete] at hafter
    have hdocument := r.store.deleteRelationship_eq Text.Digest.ofText type fromLabel fromKey toLabel
      toKey []
    rw [hdelete] at hdocument
    obtain ⟨_, -, hresult⟩ := bind_eq_ok.mp hdocument.symm
    obtain ⟨rels', hrels', -, -, hspared, hkept⟩ := deleteRelationship_eq_ok hresult
    obtain ⟨hnodes, hrels⟩ := Prod.mk.inj hparts
    obtain rfl : rels = rels' := Datum.map.inj (Option.some.inj (hrels.symm.trans hrels'))
    refine ⟨{ r with store := s' }, _, hafter, Prod.ext (hkept.trans hnodes) hspared,
      fun e he ↦ List.mem_of_mem_filter he, ?_⟩
    refine List.length_filter_lt_length_iff_exists.mpr ⟨e, he, ?_⟩
    rw [isSpared, hdoomed]
    decide

omit he in
/-- A node that can be linked has properties. What has the id of the relationship is deleted first, so
the induction is on the number of relationships. -/
theorem linked {id : String} {data : Datum} (hget : Props.get? id nodes = some data)
    (hlinked : CanBeLinked Text.Digest.ofText rels id) : HasProperties data := by
  induction hn : rels.length using Nat.strongRecOn generalizing r rels with
  | _ n ih =>
    obtain ⟨type, source, target, attrs, hsource, htarget, hattrs, hid, hmade⟩ := hlinked
    cases hold : Props.contains (relationshipId Text.Digest.ofText type source target attrs) rels with
    | false =>
      obtain ⟨fromLabel, fromKey, hfrom, rfl⟩ := hsource
      obtain ⟨toLabel, toKey, hto, rfl⟩ := htarget
      exact h.hasProperties_of_new hparts hfrom hto hattrs hget hid hold
    | true =>
      obtain ⟨e, he, heq⟩ := List.any_eq_true.mp hold
      obtain ⟨type', source', target', hdeletable⟩ := hmade e he (beq_iff_eq.mp heq)
      obtain ⟨r', rels', h', hparts', hsub, hlength⟩ := h.exists_deleted hparts he hdeletable
      have hlinked' : CanBeLinked Text.Digest.ofText rels' id :=
        ⟨type, source, target, attrs, hsource, htarget, hattrs, hid, fun e he ↦ hmade e (hsub he)⟩
      exact ih rels'.length (hn ▸ hlength) h' hparts' hlinked' rfl

end NeverFails

/-- Every call on a store, now and after other calls, is answered if and only if its document is
usable. -/
theorem neverFails_iff : r.NeverFails ↔ IsUsable Text.Digest.ofText r.store.content.toDatum := by
  refine ⟨fun h ↦ ?_, neverFails_of_isUsable⟩
  obtain ⟨nodes, rels, hparts, hlabels, htypes⟩ := h.counted
  obtain ⟨hnodes, hrels⟩ := Prod.mk.inj hparts
  refine ⟨nodes, rels, hnodes, hrels, ?_⟩
  constructor
  case labels => exact hlabels
  case type => exact htypes
  case source => exact fun e he _ htype ↦ h.exists_source hparts he htype
  case found => exact fun e he _ _ hask ↦ h.found hparts he hask
  case called => exact fun e he _ htype hs ↦ h.called hparts he htype hs
  case linked => exact fun _ _ hget hlinked ↦ h.linked hparts hget hlinked

/-! ## The document that is found -/

/-- The data in the document, if there is one that can be read. -/
def stored? (r : Rehearsal) : Option Datum := do
  let path ← r.document
  let content ← (r.files.read path).toOption
  let text ← String.fromUTF8? content
  (Json.read text).toOption

/-- A store takes the document as it is, and holds nothing if none can be read. -/
theorem content_openStore (r : Rehearsal) :
    r.openStore.store.content = (r.stored?.map Content.ofDatum).getD .empty := by
  cases hpath : r.document with
  | none => simp only [openStore, stored?, hpath, bind, Option.bind_none, Option.map_none]; rfl
  | some path =>
    cases hread : r.files.read path with
    | error e =>
      simp only [openStore, stored?, hpath, hread, bind, Option.bind_some, Except.toOption,
        Option.bind_none, Option.map_none]
      split <;> rfl
    | ok content =>
      simp only [openStore, stored?, hpath, hread, bind, Option.bind_some, Except.toOption]
      cases String.fromUTF8? content with
      | none => rfl
      | some text =>
        simp only [Option.bind_some, Store.load?]
        cases Json.read text <;> rfl

/-- **What a store can use.** Every sequence of calls on a store that has been opened is answered if and
only if no document can be read, or the one that can is usable. -/
theorem neverFails_openStore_iff (r : Rehearsal) : r.openStore.NeverFails ↔
    ∀ document, r.stored? = some document → IsUsable Text.Digest.ofText document := by
  rw [neverFails_iff, content_openStore]
  cases hstored : r.stored? with
  | none => exact ⟨fun _ _ h ↦ (nomatch h), fun _ ↦ ⟨[], [], rfl, rfl, Usable.empty⟩⟩
  | some document =>
    simp only [Option.map_some, Option.getD_some, Content.toDatum_ofDatum, Option.some.injEq,
      forall_eq']

/-- A store whose document is an empty list. -/
def onList : Rehearsal :=
  { Rehearsal.new {} (.directory [("graph.json", .file "[]".toUTF8)]) with
    document := some "graph.json" }

/-- A list is a document, but has no nodes that could be counted. -/
theorem not_forall_neverFails : ¬ ∀ r : Rehearsal, r.openStore.NeverFails := by
  intro h
  have hstored : onList.stored? = some (.list []) := by
    have hplace : onList.files.placeOf "graph.json" = ["graph.json"] := by
      rw [FileTree.placeOf_of_linkless rfl]
      decide +kernel
    have hread : onList.files.read "graph.json" = .ok "[]".toUTF8 := by
      rw [FileTree.read, hplace]
      rfl
    have hjson : Json.read "[]" = .ok (.list []) := rfl
    have hstored : onList.stored? = (onList.files.read "graph.json").toOption.bind fun content ↦
        (String.fromUTF8? content).bind fun text ↦ (Json.read text).toOption := rfl
    rw [hstored, hread]
    simp only [Except.toOption, Option.bind_some, FileTree.fromUTF8?_toUTF8, hjson]
  have husable := neverFails_iff.mp (h onList)
  rw [content_openStore, hstored] at husable
  obtain ⟨nodes, rels, hnodes, -⟩ := husable
  exact absurd hnodes (by rintro ⟨⟩)

end Rehearsal

end CodeAtlas
