import CodeAtlas.Graph.Store
import CodeAtlas.Proofs.Entries
import Mathlib.Data.List.Forall2

/-!
# A graph as plain data

What a store is asked is defined twice: for a graph, and for a document that is not written as one,
where every value has to be looked up. The two say the same. An answer depends on the data of the
document only, and a merge changes the data in the same way:

  `s.findRelationships …` is `Damaged.findRelationships …` of `s.content.toDatum`,

and so on for each operation. So what is to be shown of all stores is shown of documents alone.
-/

namespace CodeAtlas

/-- A computation that ends well has ended well at each of its steps. -/
theorem bind_eq_ok {α β : Type} {x : Except Fault α} {f : α → Except Fault β} {b : β} :
    (x >>= f) = .ok b ↔ ∃ a, x = .ok a ∧ f a = .ok b := by
  constructor
  · intro h
    cases x with
    | error e => exact absurd h (by simp [bind, Except.bind])
    | ok a => exact ⟨a, rfl, h⟩
  · rintro ⟨a, rfl, h⟩
    exact h

theorem map_eq_ok {α β : Type} {x : Except Fault α} {f : α → β} {b : β} :
    f <$> x = .ok b ↔ ∃ a, x = .ok a ∧ f a = b := by
  cases x with
  | error e => simp [Functor.map, Except.map]
  | ok a => simp [Functor.map, Except.map]

/-- A loop ends well if and only if each of its rounds does. -/
theorem mapM_eq_ok {α β : Type} {f : α → Except Fault β} {xs : List α} {ys : List β} :
    xs.mapM f = .ok ys ↔ List.Forall₂ (fun x y ↦ f x = .ok y) xs ys := by
  induction xs generalizing ys with
  | nil =>
    rw [List.mapM_nil, List.forall₂_nil_left_iff]
    exact ⟨fun h ↦ (Except.ok.inj h).symm, fun h ↦ congrArg Except.ok h.symm⟩
  | cons x xs ih =>
    rw [List.mapM_cons, List.forall₂_cons_left_iff]
    constructor
    · intro h
      obtain ⟨y, hy, h⟩ := bind_eq_ok.mp h
      obtain ⟨ys', hys, h⟩ := bind_eq_ok.mp h
      exact ⟨y, ys', hy, ih.mp hys, (Except.ok.inj h).symm⟩
    · rintro ⟨y, ys', hy, hys, rfl⟩
      exact bind_eq_ok.mpr ⟨y, hy, bind_eq_ok.mpr ⟨ys', ih.mpr hys, rfl⟩⟩

theorem exists_mapM_eq_ok {α β : Type} {f : α → Except Fault β} {xs : List α} :
    (∃ ys, xs.mapM f = .ok ys) ↔ ∀ x ∈ xs, ∃ y, f x = .ok y := by
  simp only [mapM_eq_ok]
  induction xs with
  | nil => exact ⟨fun _ _ h ↦ absurd h List.not_mem_nil, fun _ ↦ ⟨[], List.Forall₂.nil⟩⟩
  | cons x xs ih =>
    rw [List.forall_mem_cons, ← ih]
    constructor
    · rintro ⟨_ | ⟨y, ys⟩, h⟩
      · exact nomatch h
      · obtain ⟨hy, hys⟩ := List.forall₂_cons.mp h
        exact ⟨⟨y, hy⟩, ys, hys⟩
    · rintro ⟨⟨y, hy⟩, ys, hys⟩
      exact ⟨y :: ys, List.Forall₂.cons hy hys⟩

/-- A loop that passes over some of the items is one over the others. -/
theorem mapM_filterMap_eq_mapM_filter {α β : Type} (p : α → Bool) (f : α → Except Fault β)
    (xs : List α) :
    (do let found ← xs.mapM fun x ↦ if p x then some <$> f x else pure none
        pure (found.filterMap id)) = (xs.filter p).mapM f := by
  induction xs with
  | nil => rfl
  | cons x xs ih =>
    rw [List.mapM_cons, List.filter_cons]
    by_cases hx : p x = true
    · rw [if_pos hx, if_pos hx, List.mapM_cons, ← ih]
      cases f x with
      | error e => rfl
      | ok b =>
        cases xs.mapM fun x ↦ if p x then some <$> f x else pure none with
        | error e => rfl
        | ok found => rfl
    · rw [if_neg hx, if_neg hx, ← ih]
      cases xs.mapM fun x ↦ if p x then some <$> f x else pure none with
      | error e => rfl
      | ok found => rfl

namespace Content

open Graph Lookup

variable (g : Graph) (m : Option Datum)

@[simp] theorem field_nodes_graph :
    field "nodes" (toDatum (.graph g m)) = .ok (.map (g.nodes.map nodeEntry)) := rfl

@[simp] theorem field_relationships_graph : field "relationships" (toDatum (.graph g m))
    = .ok (.map (g.relationships.map relationshipEntry)) := rfl

theorem get?_nodeEntries (id : String) :
    Props.get? id (g.nodes.map nodeEntry) = (g.node? id).map fun n ↦ (nodeEntry n).2 :=
  Props.get?_map_entry (·.id) (fun n ↦ (nodeEntry n).2) id g.nodes

theorem contains_nodeEntries (id : String) :
    Props.contains id (g.nodes.map nodeEntry) = (g.node? id).isSome := by
  rw [← Props.isSome_get?, get?_nodeEntries, Option.isSome_map]

theorem contains_relationshipEntries (id : String) :
    Props.contains id (g.relationships.map relationshipEntry) = (g.relationship? id).isSome := by
  have hget : Props.get? id (g.relationships.map relationshipEntry)
      = (g.relationship? id).map fun r ↦ (relationshipEntry r).2 :=
    Props.get?_map_entry (·.id) (fun r ↦ (relationshipEntry r).2) id g.relationships
  rw [← Props.isSome_get?, hget, Option.isSome_map]

/-! ## Merging -/

theorem mergeNode_toDatum (n : Node) :
    Damaged.mergeNode n (toDatum (.graph g m)) = .ok (toDatum (.graph (g.addNode n) m)) := by
  have hholds : holds n.id (.map (g.nodes.map nodeEntry)) = .ok (g.node? n.id).isSome :=
    congrArg Except.ok (contains_nodeEntries g n.id)
  rw [Damaged.mergeNode, field_nodes_graph, addNode]
  cases hn : (g.node? n.id).isSome with
  | true =>
    simp only [bind, Except.bind, hholds, hn, if_true]
    rfl
  | false =>
    have hput : put n.id (nodeEntry n).2 (.map (g.nodes.map nodeEntry))
        = .ok (.map ((g.nodes ++ [n]).map nodeEntry)) := by
      rw [put, Props.insert_eq_append ((contains_nodeEntries g n.id).trans hn), List.map_append]
      rfl
    simp only [bind, Except.bind, hholds, hn, Bool.false_eq_true, if_false]
    exact congrArg (fun x ↦ x.bind fun d ↦ put "nodes" d (toDatum (.graph g m))) hput

theorem mergeRelationship_toDatum (r : Relationship) :
    Damaged.mergeRelationship r (toDatum (.graph g m))
      = .ok (toDatum (.graph (g.addRelationship r) m)) := by
  have hholds : holds r.id (.map (g.relationships.map relationshipEntry))
      = .ok (g.relationship? r.id).isSome :=
    congrArg Except.ok (contains_relationshipEntries g r.id)
  rw [Damaged.mergeRelationship, field_relationships_graph, addRelationship]
  cases hr : (g.relationship? r.id).isSome with
  | true =>
    simp only [bind, Except.bind, hholds, hr, if_true]
    rfl
  | false =>
    have hput : put r.id (relationshipEntry r).2 (.map (g.relationships.map relationshipEntry))
        = .ok (.map ((g.relationships ++ [r]).map relationshipEntry)) := by
      rw [put, Props.insert_eq_append ((contains_relationshipEntries g r.id).trans hr),
        List.map_append]
      rfl
    simp only [bind, Except.bind, hholds, hr, Bool.false_eq_true, if_false]
    exact congrArg (fun x ↦ x.bind fun d ↦ put "relationships" d (toDatum (.graph g m))) hput

/-! ## Looking -/

/-- The entry of a node that has to be there. -/
theorem item_nodeEntries (id : String) :
    item (.text id) (.map (g.nodes.map nodeEntry)) = (fun n ↦ (nodeEntry n).2) <$> g.endNode id := by
  rw [item, field, get?_nodeEntries, endNode]
  cases g.node? id with
  | none => rfl
  | some n => rfl

theorem matchesAttrs_map (ps attrs : Props) :
    Damaged.matchesAttrs (.map ps) attrs = .ok (includes ps attrs) := by
  cases attrs with
  | nil => rfl
  | cons a attrs => rfl

@[simp] theorem same_text (s t : String) : (Datum.text s).same (.text t) = (s == t) := by
  rw [Datum.same]

theorem edge?_relationshipEntry (type sourceId : String) (attrs : Props) (r : Relationship) :
    Damaged.edge? type sourceId attrs (toDatum (.graph g m)) (relationshipEntry r).2
      = if r.type == type && r.sourceId == sourceId && includes r.properties attrs
        then some <$> g.edgeOf r else pure none := by
  have htype : field "type" (relationshipEntry r).2 = .ok (.text r.type) := rfl
  have hsource : field "source_id" (relationshipEntry r).2 = .ok (.text r.sourceId) := rfl
  have htarget : field "target_id" (relationshipEntry r).2 = .ok (.text r.targetId) := rfl
  have hproperties : field "properties" (relationshipEntry r).2 = .ok (.map r.properties) := rfl
  simp only [Damaged.edge?, htype, hsource, htarget, hproperties, field_nodes_graph, bind,
    Except.bind, same_text, matchesAttrs_map, item_nodeEntries]
  cases r.type == type <;> cases r.sourceId == sourceId <;> cases includes r.properties attrs <;>
    try rfl
  · rw [edgeOf]
    cases g.endNode r.targetId <;> rfl

theorem findRelationships_toDatum (type sourceId : String) (attrs : Props) :
    Damaged.findRelationships type sourceId attrs (toDatum (.graph g m))
      = (g.outgoing type sourceId attrs).mapM g.edgeOf := by
  have hentries : Damaged.relationshipEntries "values" (toDatum (.graph g m))
      = .ok (g.relationships.map relationshipEntry) := rfl
  have hstep := fun r ↦ edge?_relationshipEntry g m type sourceId attrs r
  rw [outgoing, ← mapM_filterMap_eq_mapM_filter, Damaged.findRelationships, hentries]
  simp only [bind, Except.bind, List.mapM_map, Function.comp_def, hstep]

theorem nodeOf_nodeEntry (n : Node) : Damaged.nodeOf n.id (nodeEntry n).2 = .ok n := by
  have hlabels : (n.labels.map Datum.text).map Datum.display = n.labels := by
    rw [List.map_map]
    exact List.map_id _
  have hnode : Damaged.nodeOf n.id (nodeEntry n).2
      = .ok ⟨n.id, (n.labels.map Datum.text).map Datum.display, n.properties⟩ := rfl
  rw [hnode, hlabels]

theorem nodeAt_toDatum (id : String) :
    Damaged.nodeAt (.text id) (toDatum (.graph g m)) = g.endNode id := by
  rw [Damaged.nodeAt, field_nodes_graph]
  simp only [bind, Except.bind, item_nodeEntries, endNode]
  cases hn : g.node? id with
  | none => rfl
  | some n =>
    obtain rfl : n.id = id := beq_iff_eq.mp (List.find?_some (p := fun n : Node ↦ n.id == id) hn)
    exact nodeOf_nodeEntry n

theorem call?_relationshipEntry (functionId : String) (r : Relationship) :
    Damaged.call? functionId (toDatum (.graph g m)) r.id (relationshipEntry r).2
      = if r.type == calls && (r.sourceId == functionId || r.targetId == functionId)
        then some <$> g.callRecord r else pure none := by
  have htype : field "type" (relationshipEntry r).2 = .ok (.text r.type) := rfl
  have hsource : field "source_id" (relationshipEntry r).2 = .ok (.text r.sourceId) := rfl
  have htarget : field "target_id" (relationshipEntry r).2 = .ok (.text r.targetId) := rfl
  have hself : Damaged.relationshipOf r.id (relationshipEntry r).2 = .ok r := rfl
  simp only [Damaged.call?, htype, hsource, htarget, hself, bind, Except.bind, same_text,
    nodeAt_toDatum]
  cases r.type == calls with
  | false => rfl
  | true =>
    cases r.sourceId == functionId || r.targetId == functionId with
    | false => rfl
    | true =>
      have hcall : g.callRecord r = (do pure ⟨← g.endNode r.sourceId, r, ← g.endNode r.targetId⟩) :=
        rfl
      rw [hcall]
      cases g.endNode r.sourceId with
      | error e => rfl
      | ok s => cases g.endNode r.targetId <;> rfl

theorem expandCalls_toDatum (functionId : String) :
    Damaged.expandCalls functionId (toDatum (.graph g m)) = g.expandCalls functionId := by
  have hentries : Damaged.relationshipEntries "items" (toDatum (.graph g m))
      = .ok (g.relationships.map relationshipEntry) := rfl
  have hid : ∀ r : Relationship, (relationshipEntry r).1 = r.id := fun _ ↦ rfl
  have hstep := fun r ↦ call?_relationshipEntry g m functionId r
  rw [expandCalls, ← mapM_filterMap_eq_mapM_filter, Damaged.expandCalls, hentries]
  simp only [bind, Except.bind, List.mapM_map, Function.comp_def, hid, hstep]

theorem labelsOf_nodeEntry (n : Node) : Damaged.labelsOf (nodeEntry n).2 = pure n.labels := by
  have hlabels : Damaged.labelsOf (nodeEntry n).2
      = (n.labels.map Datum.text).mapM fun d ↦ hashed d := rfl
  have htext : ∀ label, hashed (.text label) = pure label := fun _ ↦ rfl
  have hall : n.labels.mapM (fun label ↦ (pure label : Except Fault String))
      = pure (n.labels.map id) := List.mapM_pure
  rw [hlabels, List.mapM_map]
  simp only [Function.comp_def, htext, hall, List.map_id]

theorem typeOf_relationshipEntry (r : Relationship) :
    Damaged.typeOf (relationshipEntry r).2 = pure r.type := rfl

theorem stats_toDatum : Damaged.stats (toDatum (.graph g m)) = .ok g.stats := by
  have hnodes : entries "values" (.map (g.nodes.map nodeEntry)) = .ok (g.nodes.map nodeEntry) := rfl
  have hrels : Damaged.relationshipEntries "values" (toDatum (.graph g m))
      = .ok (g.relationships.map relationshipEntry) := rfl
  rw [Damaged.stats, field_nodes_graph, hrels]
  simp only [bind, Except.bind, hnodes, List.mapM_map, Function.comp_def, labelsOf_nodeEntry,
    typeOf_relationshipEntry, List.mapM_pure]
  simp only [pure, Except.pure, stats, List.flatMap]

/-! ## Deleting -/

theorem isDoomed_relationshipEntry (type sourceId targetId : String) (attrs : Props)
    (r : Relationship) : Damaged.isDoomed type sourceId targetId attrs (relationshipEntry r).2
      = .ok (isBetween type sourceId targetId attrs r) := by
  have htype : field "type" (relationshipEntry r).2 = .ok (.text r.type) := rfl
  have hsource : field "source_id" (relationshipEntry r).2 = .ok (.text r.sourceId) := rfl
  have htarget : field "target_id" (relationshipEntry r).2 = .ok (.text r.targetId) := rfl
  have hproperties : field "properties" (relationshipEntry r).2 = .ok (.map r.properties) := rfl
  simp only [Damaged.isDoomed, htype, hsource, htarget, hproperties, bind, Except.bind, same_text,
    matchesAttrs_map, isBetween]
  by_cases h : r.type = type
  · by_cases h' : r.sourceId = sourceId
    · by_cases h'' : r.targetId = targetId
      · simp [h, h', h'']
      · simp [h, h', h'', pure, Except.pure]
    · simp [h, h', pure, Except.pure]
  · simp [h, pure, Except.pure]

theorem spared?_relationshipEntry (type sourceId targetId : String) (attrs : Props)
    (r : Relationship) : Damaged.spared? type sourceId targetId attrs (relationshipEntry r)
      = if !isBetween type sourceId targetId attrs r then some <$> pure (relationshipEntry r)
        else pure none := by
  rw [Damaged.spared?, isDoomed_relationshipEntry]
  cases isBetween type sourceId targetId attrs r <;> rfl

theorem deleteRelationship_toDatum (digest : Digest) (type fromLabel : String) (fromKey : Props)
    (toLabel : String) (toKey attrs : Props) :
    Damaged.deleteRelationship type (nodeId digest fromLabel fromKey) (nodeId digest toLabel toKey)
        attrs (toDatum (.graph g m))
      = .ok (toDatum (.graph
            (g.deleteRelationship digest type fromLabel fromKey toLabel toKey attrs).1 m),
          (g.deleteRelationship digest type fromLabel fromKey toLabel toKey attrs).2) := by
  let doomed := isBetween type (nodeId digest fromLabel fromKey) (nodeId digest toLabel toKey) attrs
  let kept := g.relationships.filter fun r ↦ !doomed r
  have hentries : Damaged.relationshipEntries "items" (toDatum (.graph g m))
      = .ok (g.relationships.map relationshipEntry) := rfl
  have hloop : (do
      let spared ← (g.relationships.map relationshipEntry).mapM (Damaged.spared? type
        (nodeId digest fromLabel fromKey) (nodeId digest toLabel toKey) attrs)
      pure (spared.filterMap id)) = (.ok (kept.map relationshipEntry) : Except Fault Props) := by
    have hall : kept.mapM (fun r ↦ (pure (relationshipEntry r) : Except Fault (String × Datum)))
        = pure (kept.map relationshipEntry) := List.mapM_pure
    rw [List.mapM_map]
    simp only [Function.comp_def, spared?_relationshipEntry]
    rw [mapM_filterMap_eq_mapM_filter, hall]
    rfl
  have hcount : (g.relationships.map relationshipEntry).length - (kept.map relationshipEntry).length
      = g.relationships.countP doomed := by
    have hsplit := g.relationships.length_eq_countP_add_countP doomed
    have hkept : kept.length = g.relationships.countP fun r ↦ !doomed r :=
      List.countP_eq_length_filter.symm
    rw [List.length_map, List.length_map, hkept]
    simp only [Bool.not_eq_true, Bool.decide_eq_false] at hsplit
    omega
  rw [Damaged.deleteRelationship, hentries]
  cases hspared : (g.relationships.map relationshipEntry).mapM (Damaged.spared? type
      (nodeId digest fromLabel fromKey) (nodeId digest toLabel toKey) attrs) with
  | error e => exact absurd hloop (by simp [hspared, bind, Except.bind])
  | ok spared =>
    have hkept : spared.filterMap id = kept.map relationshipEntry := by
      simpa [hspared, bind, Except.bind, pure, Except.pure] using hloop
    simp only [bind, Except.bind, hspared, hkept, hcount]
    rfl

end Content

namespace Graph.Damaged

open Lookup

theorem field_eq_ok {key : String} {d v : Datum} : field key d = .ok v ↔ d.get? key = some v := by
  cases d with
  | map entries =>
    rw [field, Datum.get?]
    cases Props.get? key entries with
    | none => simp
    | some w => simp
  | _ => simp [field, Datum.get?, wrongType]

theorem entries_eq_ok {operation : String} {d : Datum} {es : Props} :
    entries operation d = .ok es ↔ d = .map es := by
  cases d with
  | map entries' => simp [entries]
  | _ => simp [entries]

theorem relationshipEntries_eq_ok {operation : String} {d : Datum} {rels : Props} :
    relationshipEntries operation d = .ok rels ↔ d.get? "relationships" = some (.map rels) := by
  rw [relationshipEntries, bind_eq_ok]
  simp only [field_eq_ok, entries_eq_ok]
  exact ⟨fun ⟨_, hget, hmap⟩ ↦ hmap ▸ hget, fun h ↦ ⟨_, h, rfl⟩⟩

theorem put_eq_ok {key : String} {value d d' : Datum} (h : put key value d = .ok d') :
    d'.get? key = some value ∧ ∀ other, other ≠ key → d'.get? other = d.get? other := by
  cases d with
  | map entries =>
    obtain rfl : .map (Props.insert key value entries) = d' := Except.ok.inj h
    exact ⟨Props.get?_insert_self key value entries,
      fun other hother ↦ Props.get?_insert_of_ne hother value entries⟩
  | _ => exact absurd h (by simp [put, wrongType])

theorem spared?_eq_ok {type sourceId targetId : String} {attrs : Props} {e : String × Datum}
    {o : Option (String × Datum)} : spared? type sourceId targetId attrs e = .ok o ↔
      isDoomed type sourceId targetId attrs e.2 = .ok true ∧ o = none ∨
        isDoomed type sourceId targetId attrs e.2 = .ok false ∧ o = some e := by
  rw [spared?, bind_eq_ok]
  constructor
  · rintro ⟨doomed, hdoomed, ho⟩
    cases doomed with
    | true => exact Or.inl ⟨hdoomed, (Except.ok.inj ho).symm⟩
    | false => exact Or.inr ⟨hdoomed, (Except.ok.inj ho).symm⟩
  · rintro (⟨hdoomed, rfl⟩ | ⟨hdoomed, rfl⟩)
    · exact ⟨true, hdoomed, rfl⟩
    · exact ⟨false, hdoomed, rfl⟩

/-- Is it known of a relationship that it is not doomed? -/
def isSpared (type sourceId targetId : String) (attrs : Props) (rel : Datum) : Bool :=
  match isDoomed type sourceId targetId attrs rel with
  | .ok doomed => !doomed
  | .error _ => false

/-- The entries of relationships that are not doomed. -/
def spared (type sourceId targetId : String) (attrs rels : Props) : Props :=
  rels.filter fun e ↦ isSpared type sourceId targetId attrs e.2

theorem filterMap_spared? {type sourceId targetId : String} {attrs rels : Props}
    {found : List (Option (String × Datum))}
    (h : rels.mapM (spared? type sourceId targetId attrs) = .ok found) :
    found.filterMap id = spared type sourceId targetId attrs rels := by
  have hall := mapM_eq_ok.mp h
  clear h
  induction hall with
  | nil => rfl
  | cons ho _ ih =>
    rw [spared, List.filter_cons, isSpared]
    rcases spared?_eq_ok.mp ho with ⟨hdoomed, rfl⟩ | ⟨hdoomed, rfl⟩
    · rw [hdoomed]
      exact ih
    · rw [hdoomed]
      exact congrArg (_ :: ·) ih

/-- A deletion looks at every relationship and takes the doomed ones away. -/
theorem deleteRelationship_eq_ok {type sourceId targetId : String} {attrs : Props}
    {d d' : Datum} {n : Nat} (h : deleteRelationship type sourceId targetId attrs d = .ok (d', n)) :
    ∃ rels, d.get? "relationships" = some (.map rels) ∧
      (∀ e ∈ rels, ∃ doomed, isDoomed type sourceId targetId attrs e.2 = .ok doomed) ∧
      n = rels.length - (spared type sourceId targetId attrs rels).length ∧
      d'.get? "relationships" = some (.map (spared type sourceId targetId attrs rels)) ∧
      d'.get? "nodes" = d.get? "nodes" := by
  obtain ⟨rels, hrels, h⟩ := bind_eq_ok.mp h
  obtain ⟨found, hfound, h⟩ := bind_eq_ok.mp h
  obtain ⟨document, hput, h⟩ := bind_eq_ok.mp h
  obtain ⟨rfl, rfl⟩ := Prod.mk.inj (Except.ok.inj h)
  rw [filterMap_spared? hfound] at hput ⊢
  obtain ⟨hself, hother⟩ := put_eq_ok hput
  refine ⟨rels, relationshipEntries_eq_ok.mp hrels, fun e he ↦ ?_, rfl, hself,
    hother "nodes" (by decide)⟩
  obtain ⟨o, ho⟩ := exists_mapM_eq_ok.mp ⟨found, hfound⟩ e he
  rcases spared?_eq_ok.mp ho with ⟨hdoomed, -⟩ | ⟨hdoomed, -⟩
  · exact ⟨true, hdoomed⟩
  · exact ⟨false, hdoomed⟩

end Graph.Damaged

namespace Store

open Graph

/-! ## Stores -/

variable (digest : Digest) (s : Store)

theorem look_eq {α : Type} {onGraph : Graph → Except Fault α} {onDocument : Datum → Except Fault α}
    (h : ∀ g m, onDocument (Content.toDatum (.graph g m)) = onGraph g) :
    s.look onGraph onDocument = onDocument s.content.toDatum := by
  obtain ⟨content, dirty⟩ := s
  cases content with
  | graph g m => exact (h g m).symm
  | damaged document => rfl

theorem nodeCount_eq : s.nodeCount = Damaged.nodeCount s.content.toDatum := by
  refine s.look_eq fun g m ↦ ?_
  have hsize : Damaged.nodeCount (Content.toDatum (.graph g m))
      = .ok (g.nodes.map Content.nodeEntry).length := rfl
  rw [hsize, List.length_map]

theorem findRelationships_eq (type fromLabel : String) (fromKey attrs : Props) :
    s.findRelationships digest type fromLabel fromKey attrs
      = (checkWritable [fromKey]).bind fun _ ↦ Damaged.findRelationships type
          (nodeId digest fromLabel fromKey) attrs s.content.toDatum := by
  rw [← s.look_eq fun g m ↦ Content.findRelationships_toDatum g m type _ attrs]
  rfl

theorem expandCalls_eq (functionId : String) :
    s.expandCalls functionId = Damaged.expandCalls functionId s.content.toDatum :=
  s.look_eq fun g m ↦ Content.expandCalls_toDatum g m functionId

theorem stats_eq : s.stats = Damaged.stats s.content.toDatum := s.look_eq Content.stats_toDatum

theorem toDatum_addNode (n : Node) (c : Content) :
    Content.toDatum <$> addNode n c = Damaged.mergeNode n c.toDatum := by
  cases c with
  | graph g m => exact (Content.mergeNode_toDatum g m n).symm
  | damaged document =>
    simp only [addNode, Content.toDatum]
    cases Damaged.mergeNode n document <;> rfl

theorem toDatum_addRelationship (r : Relationship) (c : Content) :
    Content.toDatum <$> addRelationship r c = Damaged.mergeRelationship r c.toDatum := by
  cases c with
  | graph g m => exact (Content.mergeRelationship_toDatum g m r).symm
  | damaged document =>
    simp only [addRelationship, Content.toDatum]
    cases Damaged.mergeRelationship r document <;> rfl

theorem deleteRelationship_eq (type fromLabel : String) (fromKey : Props) (toLabel : String)
    (toKey attrs : Props) :
    (fun result ↦ (result.1.content.toDatum, result.2)) <$>
        s.deleteRelationship digest type fromLabel fromKey toLabel toKey attrs
      = (checkWritable [fromKey, toKey]).bind fun _ ↦ Damaged.deleteRelationship type
          (nodeId digest fromLabel fromKey) (nodeId digest toLabel toKey) attrs
          s.content.toDatum := by
  rw [deleteRelationship]
  cases checkWritable [fromKey, toKey] with
  | error e => rfl
  | ok _ =>
    obtain ⟨content, dirty⟩ := s
    cases content with
    | graph g m =>
      exact (Content.deleteRelationship_toDatum g m digest type fromLabel fromKey toLabel toKey
        attrs).symm
    | damaged document =>
      simp only [Content.toDatum, bind, Except.bind]
      cases Damaged.deleteRelationship type (nodeId digest fromLabel fromKey)
        (nodeId digest toLabel toKey) attrs document <;> rfl

end Store

end CodeAtlas
