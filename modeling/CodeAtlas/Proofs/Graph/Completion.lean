import CodeAtlas.Proofs.Graph.PlainData

/-!
# When an operation on a document completes

An operation on a document looks up what it needs, and only what it needs: the source of a
relationship is looked up only if the type is the one asked for, its properties only if the source is
as well. Here it is said for each operation what has to be there. The conditions are exact, and they
are nested as the questions are.

A relationship is *passed over* as soon as an answer is not the one asked for, and whatever is missing
behind it does not matter.
-/

namespace CodeAtlas

/-- A value that can be the key of a table. -/
def Datum.IsHashable : Datum → Prop
  | .list _ | .map _ => False
  | _ => True

theorem same_text_iff {d : Datum} {s : String} : d.same (.text s) = true ↔ d = .text s := by
  cases d <;> simp [Datum.same, Datum.integer?]

theorem exists_bind_eq_ok {α β : Type} {x : Except Fault α} {f : α → Except Fault β} :
    (∃ b, (x >>= f) = .ok b) ↔ ∃ a, x = .ok a ∧ ∃ b, f a = .ok b := by
  simp only [bind_eq_ok]
  exact ⟨fun ⟨b, a, ha, hb⟩ ↦ ⟨a, ha, b, hb⟩, fun ⟨a, ha, b, hb⟩ ↦ ⟨b, a, ha, hb⟩⟩

theorem exists_pure_eq_ok {α : Type} (a : α) : ∃ b, (pure a : Except Fault α) = .ok b := ⟨a, rfl⟩

/-- A question, and what is to be done if the answer is the text asked for. -/
theorem exists_ite_same {β : Type} {d : Datum} {s : String} {x y : Except Fault β}
    (hx : ∃ b, x = .ok b) :
    (∃ b, (if !d.same (.text s) then x else y) = .ok b) ↔ (d = .text s → ∃ b, y = .ok b) := by
  by_cases h : d = .text s
  · rw [same_text_iff.mpr h]
    simp [h]
  · rw [Bool.eq_false_iff.mpr (mt same_text_iff.mp h)]
    simp [h, hx]

theorem exists_ite_eq_ok {β : Type} {c : Prop} [Decidable c] {x y : Except Fault β}
    (hy : ∃ b, y = .ok b) : (∃ b, (if c then x else y) = .ok b) ↔ (c → ∃ b, x = .ok b) := by
  by_cases h : c
  · simp [h]
  · simp [h, hy]

namespace Graph.Damaged

open Lookup

/-! ## What has to be there -/

/-- There are labels, and they can be counted. -/
def HasLabels (data : Datum) : Prop :=
  ∃ d ds, data.get? "labels" = some d ∧ items d = .ok ds ∧ ∀ x ∈ ds, x.IsHashable

/-- There are properties, and a copy can be made of them. -/
def HasProperties (data : Datum) : Prop :=
  ∃ d ps, data.get? "properties" = some d ∧ asProps d = .ok ps

/-- There is a node of this id, of whose properties a copy can be made. -/
def HasNode (nodes : Props) (id : Datum) : Prop :=
  ∃ name data, id = .text name ∧ Props.get? name nodes = some data ∧ HasProperties data

theorem exists_hashed {d : Datum} : (∃ s, hashed d = .ok s) ↔ d.IsHashable := by
  cases d <;> simp [hashed, wrongType, Datum.IsHashable]

theorem exists_labelsOf {data : Datum} : (∃ ls, labelsOf data = .ok ls) ↔ HasLabels data := by
  constructor
  · rintro ⟨ls, h⟩
    obtain ⟨d, hd, h⟩ := bind_eq_ok.mp h
    obtain ⟨ds, hds, h⟩ := bind_eq_ok.mp h
    have hall := exists_mapM_eq_ok.mp ⟨ls, h⟩
    exact ⟨d, ds, field_eq_ok.mp hd, hds, fun x hx ↦ exists_hashed.mp (hall x hx)⟩
  · rintro ⟨d, ds, hd, hds, hall⟩
    obtain ⟨ls, h⟩ := exists_mapM_eq_ok.mpr fun x hx ↦ exists_hashed.mpr (hall x hx)
    exact ⟨ls, bind_eq_ok.mpr ⟨d, field_eq_ok.mpr hd, bind_eq_ok.mpr ⟨ds, hds, h⟩⟩⟩

theorem exists_typeOf {rel : Datum} :
    (∃ s, typeOf rel = .ok s) ↔ ∃ t, rel.get? "type" = some t ∧ t.IsHashable := by
  simp only [typeOf, exists_bind_eq_ok, field_eq_ok, exists_hashed]

/-- The values of a map can be counted only if they have what is counted. -/
theorem exists_stats {document : Datum} : (∃ x, stats document = .ok x) ↔
    ∃ nodes rels, document.get? "nodes" = some (.map nodes) ∧
      document.get? "relationships" = some (.map rels) ∧ (∀ e ∈ nodes, HasLabels e.2) ∧
      ∀ e ∈ rels, ∃ t, e.2.get? "type" = some t ∧ t.IsHashable := by
  constructor
  · rintro ⟨x, h⟩
    obtain ⟨d, hd, h⟩ := bind_eq_ok.mp h
    obtain ⟨nodes, hnodes, h⟩ := bind_eq_ok.mp h
    obtain ⟨labels, hlabels, h⟩ := bind_eq_ok.mp h
    obtain ⟨rels, hrels, h⟩ := bind_eq_ok.mp h
    obtain ⟨types, htypes, -⟩ := bind_eq_ok.mp h
    obtain rfl := entries_eq_ok.mp hnodes
    have hlabels' := exists_mapM_eq_ok.mp ⟨labels, hlabels⟩
    have htypes' := exists_mapM_eq_ok.mp ⟨types, htypes⟩
    exact ⟨nodes, rels, field_eq_ok.mp hd, relationshipEntries_eq_ok.mp hrels,
      fun e he ↦ exists_labelsOf.mp (hlabels' e he), fun e he ↦ exists_typeOf.mp (htypes' e he)⟩
  · rintro ⟨nodes, rels, hnodes, hrels, hlabels, htypes⟩
    obtain ⟨labels, hlabels⟩ := exists_mapM_eq_ok.mpr fun e he ↦ exists_labelsOf.mpr (hlabels e he)
    obtain ⟨types, htypes⟩ := exists_mapM_eq_ok.mpr fun e he ↦ exists_typeOf.mpr (htypes e he)
    exact ⟨⟨tally labels.flatten, tally types⟩, bind_eq_ok.mpr ⟨_, field_eq_ok.mpr hnodes,
      bind_eq_ok.mpr ⟨nodes, rfl, bind_eq_ok.mpr ⟨labels, hlabels, bind_eq_ok.mpr
        ⟨rels, relationshipEntries_eq_ok.mpr hrels, bind_eq_ok.mpr ⟨types, htypes, rfl⟩⟩⟩⟩⟩⟩

/-! ## Relationships -/

/-- Only a map has attributes. If none are asked for, anything has them. -/
theorem exists_matchesAttrs {d : Datum} {attrs : Props} :
    (∃ b, matchesAttrs d attrs = .ok b) ↔ attrs = [] ∨ ∃ ps, d = .map ps := by
  cases attrs with
  | nil => exact ⟨fun _ ↦ Or.inl rfl, fun _ ↦ ⟨true, rfl⟩⟩
  | cons a attrs =>
    have hmatches : matchesAttrs d (a :: attrs)
        = (entries "get" d >>= fun ps ↦ pure (includes ps (a :: attrs))) := rfl
    rw [hmatches, exists_bind_eq_ok]
    simp only [entries_eq_ok, exists_pure_eq_ok, and_true, reduceCtorEq, false_or]

theorem exists_isDoomed {type sourceId targetId : String} {attrs : Props} {rel : Datum} :
    (∃ b, isDoomed type sourceId targetId attrs rel = .ok b) ↔
      ∃ t, rel.get? "type" = some t ∧ (t = .text type →
        ∃ s, rel.get? "source_id" = some s ∧ (s = .text sourceId →
          ∃ u, rel.get? "target_id" = some u ∧ (u = .text targetId →
            ∃ ps, rel.get? "properties" = some ps ∧ (attrs = [] ∨ ∃ es, ps = .map es)))) := by
  simp only [isDoomed, exists_bind_eq_ok, field_eq_ok, exists_ite_same (exists_pure_eq_ok _),
    exists_matchesAttrs]

/-- What is doomed is a relationship of the type between the two nodes. -/
theorem eq_of_isDoomed {type sourceId targetId : String} {attrs : Props} {rel : Datum}
    (h : isDoomed type sourceId targetId attrs rel = .ok true) :
    rel.get? "type" = some (.text type) ∧ rel.get? "source_id" = some (.text sourceId) ∧
      rel.get? "target_id" = some (.text targetId) := by
  have hasked : ∀ {d : Datum} {s : String} {y : Except Fault Bool},
      (if !d.same (.text s) then pure false else y) = .ok true → d = .text s ∧ y = .ok true := by
    intro d s y hy
    by_cases hd : d.same (.text s) = true
    · exact ⟨same_text_iff.mp hd, by simpa [hd] using hy⟩
    · exact absurd hy (by simp [hd, pure, Except.pure])
  obtain ⟨t, ht, h⟩ := bind_eq_ok.mp h
  obtain ⟨ht', h⟩ := hasked h
  obtain ⟨s, hs, h⟩ := bind_eq_ok.mp h
  obtain ⟨hs', h⟩ := hasked h
  obtain ⟨u, hu, h⟩ := bind_eq_ok.mp h
  obtain ⟨hu', -⟩ := hasked h
  exact ⟨ht' ▸ field_eq_ok.mp ht, hs' ▸ field_eq_ok.mp hs, hu' ▸ field_eq_ok.mp hu⟩

theorem isDoomed_of_eq {type sourceId targetId : String} {rel ps : Datum}
    (htype : rel.get? "type" = some (.text type))
    (hsource : rel.get? "source_id" = some (.text sourceId))
    (htarget : rel.get? "target_id" = some (.text targetId))
    (hproperties : rel.get? "properties" = some ps) :
    isDoomed type sourceId targetId [] rel = .ok true := by
  have hself : ∀ s, (Datum.text s).same (.text s) = true := fun s ↦ same_text_iff.mpr rfl
  simp only [isDoomed, field_eq_ok.mpr htype, field_eq_ok.mpr hsource, field_eq_ok.mpr htarget,
    field_eq_ok.mpr hproperties, bind, Except.bind, hself, Bool.not_true, Bool.false_eq_true,
    if_false]
  rfl

theorem item_eq_ok {x d : Datum} {nodes : Props} : item x (.map nodes) = .ok d ↔
    ∃ id, x = .text id ∧ Props.get? id nodes = some d := by
  cases x with
  | text id =>
    have hitem : item (.text id) (.map nodes) = field id (.map nodes) := rfl
    rw [hitem, field_eq_ok, Datum.get?]
    simp
  | _ => simp [item, hashed, wrongType, bind, Except.bind]

theorem exists_edge? {type sourceId : String} {attrs : Props} {document rel : Datum} :
    (∃ o, edge? type sourceId attrs document rel = .ok o) ↔
      ∃ t, rel.get? "type" = some t ∧ (t = .text type →
        ∃ s, rel.get? "source_id" = some s ∧ (s = .text sourceId →
          ∃ ps, rel.get? "properties" = some ps ∧ ∃ b, matchesAttrs ps attrs = .ok b ∧
            (b = true → (∃ nodes u data, document.get? "nodes" = some nodes ∧
              rel.get? "target_id" = some u ∧ item u nodes = .ok data ∧ HasProperties data) ∧
              ∃ es, asProps ps = .ok es))) := by
  have hfound : ∀ ps : Datum, (∃ o, (do
      let nodes ← field "nodes" document
      let target ← item (← field "target_id" rel) nodes
      pure (some (⟨← asProps (← field "properties" target), ← asProps ps⟩ : Edge))) = .ok o) ↔
      (∃ nodes u data, document.get? "nodes" = some nodes ∧ rel.get? "target_id" = some u ∧
        item u nodes = .ok data ∧ HasProperties data) ∧ ∃ es, asProps ps = .ok es := by
    intro ps
    simp only [exists_bind_eq_ok, field_eq_ok, exists_pure_eq_ok, and_true]
    constructor
    · rintro ⟨nodes, hnodes, u, hu, data, hdata, qs, hqs, rs, hrs, hes⟩
      exact ⟨⟨nodes, u, data, hnodes, hu, hdata, qs, rs, hqs, hrs⟩, hes⟩
    · rintro ⟨⟨nodes, u, data, hnodes, hu, hdata, qs, rs, hqs, hrs⟩, hes⟩
      exact ⟨nodes, hnodes, u, hu, data, hdata, qs, hqs, rs, hrs, hes⟩
  simp only [edge?, exists_bind_eq_ok, field_eq_ok, exists_ite_same (exists_pure_eq_ok _),
    exists_ite_eq_ok (exists_pure_eq_ok _)]
  simp only [exists_bind_eq_ok, field_eq_ok] at hfound
  simp only [hfound]

/-- A node that is looked up needs properties. Labels are in every entry. -/
theorem exists_nodeAt {x document : Datum} {nodes : Props}
    (hnodes : document.get? "nodes" = some (.map nodes)) (hlabels : ∀ e ∈ nodes, HasLabels e.2) :
    (∃ n, nodeAt x document = .ok n) ↔ HasNode nodes x := by
  constructor
  · rintro ⟨n, h⟩
    obtain ⟨d, hd, h⟩ := bind_eq_ok.mp h
    obtain ⟨data, hdata, h⟩ := bind_eq_ok.mp h
    obtain ⟨ls, -, h⟩ := bind_eq_ok.mp h
    obtain ⟨ds, -, h⟩ := bind_eq_ok.mp h
    obtain ⟨qs, hqs, h⟩ := bind_eq_ok.mp h
    obtain ⟨ps, hps, -⟩ := bind_eq_ok.mp h
    obtain rfl : d = .map nodes := Option.some.inj ((field_eq_ok.mp hd).symm.trans hnodes)
    obtain ⟨name, rfl, hget⟩ := item_eq_ok.mp hdata
    exact ⟨name, data, rfl, hget, qs, ps, field_eq_ok.mp hqs, hps⟩
  · rintro ⟨name, data, rfl, hget, qs, ps, hqs, hps⟩
    obtain ⟨ls, ds, hls, hds, -⟩ := hlabels (name, data) (Props.mem_of_get? hget)
    have hitem : item (.text name) (.map nodes) = .ok data := item_eq_ok.mpr ⟨name, rfl, hget⟩
    exact ⟨⟨name, ds.map Datum.display, ps⟩, bind_eq_ok.mpr ⟨_, field_eq_ok.mpr hnodes,
      bind_eq_ok.mpr ⟨data, hitem, bind_eq_ok.mpr ⟨ls, field_eq_ok.mpr hls, bind_eq_ok.mpr ⟨ds, hds,
        bind_eq_ok.mpr ⟨qs, field_eq_ok.mpr hqs, bind_eq_ok.mpr ⟨ps, hps, rfl⟩⟩⟩⟩⟩⟩⟩

theorem exists_relationshipOf {id : String} {rel : Datum} :
    (∃ r, relationshipOf id rel = .ok r) ↔ (∃ t, rel.get? "type" = some t) ∧
      (∃ s, rel.get? "source_id" = some s) ∧ (∃ u, rel.get? "target_id" = some u) ∧
      HasProperties rel := by
  simp only [relationshipOf, exists_bind_eq_ok, field_eq_ok, exists_pure_eq_ok, and_true]
  constructor
  · rintro ⟨t, ht, s, hs, u, hu, qs, hqs, rs, hrs⟩
    exact ⟨⟨t, ht⟩, ⟨s, hs⟩, ⟨u, hu⟩, qs, rs, hqs, hrs⟩
  · rintro ⟨⟨t, ht⟩, ⟨s, hs⟩, ⟨u, hu⟩, qs, rs, hqs, hrs⟩
    exact ⟨t, ht, s, hs, u, hu, qs, hqs, rs, hrs⟩

theorem exists_call? {functionId id : String} {document rel : Datum} :
    (∃ o, call? functionId document id rel = .ok o) ↔
      ∃ t, rel.get? "type" = some t ∧ (t = .text calls →
        ∃ s, rel.get? "source_id" = some s ∧ ∃ u, rel.get? "target_id" = some u ∧
          (s = .text functionId ∨ u = .text functionId → (∃ n, nodeAt s document = .ok n) ∧
            (∃ r, relationshipOf id rel = .ok r) ∧ ∃ n, nodeAt u document = .ok n)) := by
  simp only [call?, exists_bind_eq_ok, field_eq_ok, exists_ite_same (exists_pure_eq_ok _),
    exists_ite_eq_ok (exists_pure_eq_ok _), exists_pure_eq_ok, and_true, Bool.or_eq_true,
    same_text_iff, exists_and_right]

/-! ## All relationships of a document -/

/-- Where an entry is, it can be replaced. -/
theorem exists_put {key : String} {d old : Datum} (h : d.get? key = some old) (value : Datum) :
    ∃ d', put key value d = .ok d' := by
  cases d with
  | map es => exact ⟨_, rfl⟩
  | _ => exact nomatch h

section

variable {document : Datum} {rels : Props}
  (hrels : document.get? "relationships" = some (.map rels))

include hrels

theorem exists_findRelationships {type sourceId : String} {attrs : Props} :
    (∃ x, findRelationships type sourceId attrs document = .ok x) ↔
      ∀ e ∈ rels, ∃ o, edge? type sourceId attrs document e.2 = .ok o := by
  simp only [findRelationships, relationshipEntries_eq_ok.mpr hrels, exists_bind_eq_ok,
    exists_pure_eq_ok, and_true, Except.ok.injEq, exists_eq_left', exists_mapM_eq_ok]

theorem exists_expandCalls {functionId : String} :
    (∃ x, expandCalls functionId document = .ok x) ↔
      ∀ e ∈ rels, ∃ o, call? functionId document e.1 e.2 = .ok o := by
  simp only [expandCalls, relationshipEntries_eq_ok.mpr hrels, exists_bind_eq_ok,
    exists_pure_eq_ok, and_true, Except.ok.injEq, exists_eq_left', exists_mapM_eq_ok]

theorem exists_deleteRelationship {type sourceId targetId : String} {attrs : Props} :
    (∃ x, deleteRelationship type sourceId targetId attrs document = .ok x) ↔
      ∀ e ∈ rels, ∃ b, isDoomed type sourceId targetId attrs e.2 = .ok b := by
  have hput := fun value ↦ exists_put hrels value
  have hspared : ∀ e : String × Datum, (∃ o, spared? type sourceId targetId attrs e = .ok o) ↔
      ∃ b, isDoomed type sourceId targetId attrs e.2 = .ok b := by
    intro e
    rw [spared?, exists_bind_eq_ok]
    constructor
    · rintro ⟨b, hb, -⟩
      exact ⟨b, hb⟩
    · rintro ⟨b, hb⟩
      exact ⟨b, hb, by cases b <;> exact exists_pure_eq_ok _⟩
  simp only [deleteRelationship, relationshipEntries_eq_ok.mpr hrels, exists_bind_eq_ok,
    exists_pure_eq_ok, and_true, Except.ok.injEq, exists_eq_left', exists_mapM_eq_ok, hput, hspared]

end

/-! ## Merging -/

section

variable {document : Datum} {nodes rels : Props}

/-- A node is added unless there is one with its id. -/
theorem exists_mergeNode (n : Node) (hnodes : document.get? "nodes" = some (.map nodes)) :
    ∃ document', mergeNode n document = .ok document' ∧
      document'.get? "nodes" = some (.map (Props.addNew n.id (Content.nodeEntry n).2 nodes)) ∧
      document'.get? "relationships" = document.get? "relationships" := by
  have hmerge : mergeNode n document = if Props.contains n.id nodes then .ok document
      else put "nodes" (.map (Props.insert n.id (Content.nodeEntry n).2 nodes)) document := by
    rw [mergeNode, field_eq_ok.mpr hnodes]
    rfl
  rw [hmerge, Props.addNew]
  cases hnew : Props.contains n.id nodes with
  | true => exact ⟨document, rfl, hnodes, rfl⟩
  | false =>
    rw [Props.insert_eq_append hnew]
    obtain ⟨document', hput⟩ := exists_put hnodes (.map (nodes ++ [(n.id, (Content.nodeEntry n).2)]))
    obtain ⟨hself, hother⟩ := put_eq_ok hput
    exact ⟨document', hput, hself, hother _ (by decide)⟩

/-- A relationship is added unless there is one with its id. -/
theorem exists_mergeRelationship (r : Relationship)
    (hrels : document.get? "relationships" = some (.map rels)) :
    ∃ document', mergeRelationship r document = .ok document' ∧
      document'.get? "relationships"
        = some (.map (Props.addNew r.id (Content.relationshipEntry r).2 rels)) ∧
      document'.get? "nodes" = document.get? "nodes" := by
  have hmerge : mergeRelationship r document = if Props.contains r.id rels then .ok document
      else put "relationships" (.map (Props.insert r.id (Content.relationshipEntry r).2 rels))
        document := by
    rw [mergeRelationship, field_eq_ok.mpr hrels]
    rfl
  rw [hmerge, Props.addNew]
  cases hnew : Props.contains r.id rels with
  | true => exact ⟨document, rfl, hrels, rfl⟩
  | false =>
    rw [Props.insert_eq_append hnew]
    obtain ⟨document', hput⟩ :=
      exists_put hrels (.map (rels ++ [(r.id, (Content.relationshipEntry r).2)]))
    obtain ⟨hself, hother⟩ := put_eq_ok hput
    exact ⟨document', hput, hself, hother _ (by decide)⟩

end

end Graph.Damaged

end CodeAtlas
