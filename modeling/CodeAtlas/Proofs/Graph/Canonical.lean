import CodeAtlas.Proofs.Graph.TextMaps
import Mathlib.Algebra.GroupWithZero.Nat

/-!
# Every store is in order

`Graph.Consistent` is kept by each operation of the store, so a store that is reached from an empty
one by changes holds a consistent graph. What follows from consistency is collected here: no two
elements have the same parts, no lookup runs into an element that is not there, and the counts add
up.

Nothing is assumed of the keys and attributes. They may be any data, also data that has no written
form; a change with such a key fails, and it may fail after it has added the ends of a relationship.
Nothing is assumed of the digest either. A collision would make the store take one element for
another and not add the second one, which loses an element but leaves the rest in order.

## Data as they are written

Maps are hashed with their entries sorted by key, at every depth, so elements whose properties
differ in the order of entries only have the same id. `Datum.ordered` is the representative of data
up to that order.
-/

namespace CodeAtlas

/-! ## Data up to the order of entries -/

namespace Json

mutual

/-- The canonical form does not show in which order the entries of a map came. -/
theorem writeAt_ordered (level : Nat) (d : Datum) :
    writeAt .canonical level d.ordered = writeAt .canonical level d := by
  cases d with
  | list items => rw [Datum.ordered, writeAt, writeAt, writeItems_ordered (level + 1) items]
  | map entries =>
    have hkeys : Style.canonical.sortKeys = true := rfl
    rw [Datum.ordered, writeAt, writeAt, if_pos hkeys, if_pos hkeys, sorted_writeEntries,
      sorted_writeEntries, Props.sorted_sorted, ← sorted_writeEntries, ← sorted_writeEntries,
      writeEntries_ordered (level + 1) entries]
  | _ => rfl

theorem writeItems_ordered (level : Nat) (items : List Datum) :
    writeItems .canonical level (Datum.orderedItems items) = writeItems .canonical level items := by
  cases items with
  | nil => rfl
  | cons d rest =>
    rw [Datum.orderedItems, writeItems, writeItems, writeAt_ordered level d,
      writeItems_ordered level rest]

theorem writeEntries_ordered (level : Nat) (entries : List (String × Datum)) :
    writeEntries .canonical level (Datum.orderedEntries entries)
      = writeEntries .canonical level entries := by
  cases entries with
  | nil => rfl
  | cons e rest =>
    rw [Datum.orderedEntries, writeEntries, writeEntries, writeAt_ordered level e.2,
      writeEntries_ordered level rest]

end

/-- Data that are the same up to the order of entries are written alike. -/
theorem writeAt_eq_of_ordered {level : Nat} {d e : Datum} (h : d.ordered = e.ordered) :
    writeAt .canonical level d = writeAt .canonical level e := by
  rw [← writeAt_ordered level d, h, writeAt_ordered level e]

end Json

namespace Graph

variable {digest : Digest} {admits : Datum → Prop} {g : Graph}

theorem idText_congr {parts parts' : List Datum}
    (h : Datum.orderedItems parts = Datum.orderedItems parts') : idText parts = idText parts' := by
  have hlist : (Datum.list parts).ordered = (Datum.list parts').ordered := congrArg Datum.list h
  exact congrArg String.ofList (Json.writeAt_eq_of_ordered hlist)

/-! ## Counting -/

/-- Counting a text once more adds one to the sum, whether it has been counted before or not. -/
theorem sum_insert_count (t : String) (counts : List (String × Nat)) :
    ((Props.insert t ((Props.get? t counts).getD 0 + 1) counts).map Prod.snd).sum
      = (counts.map Prod.snd).sum + 1 := by
  induction counts with
  | nil => rfl
  | cons e counts ih =>
    obtain ⟨k, n⟩ := e
    by_cases hk : k == t
    · simp only [Props.get?, Props.insert, if_pos hk, Option.getD_some, List.map_cons, List.sum_cons]
      omega
    · simp only [Props.get?, Props.insert, if_neg hk, List.map_cons, List.sum_cons, ih]
      omega

theorem sum_tally (texts : List String) : ((tally texts).map Prod.snd).sum = texts.length := by
  have hfold : ∀ counts : List (String × Nat), ((texts.foldl (fun counts t ↦
      Props.insert t ((Props.get? t counts).getD 0 + 1) counts) counts).map Prod.snd).sum
        = (counts.map Prod.snd).sum + texts.length := by
    induction texts with
    | nil => exact fun _ ↦ rfl
    | cons t texts ih =>
      intro counts
      rw [List.foldl_cons, ih, sum_insert_count, List.length_cons]
      omega
  exact (hfold []).trans (Nat.zero_add _)

/-! ## What consistency gives -/

namespace Consistent

theorem node_id (hg : g.Consistent digest admits) {n : Node} (hn : n ∈ g.nodes) :
    ∃ label, n.labels = [label] ∧ n.id = nodeId digest label n.properties := by
  obtain ⟨label, heq⟩ := hg.node_eq n hn
  exact ⟨label, congrArg Node.labels heq, congrArg Node.id heq⟩

/-- A node is settled by its label and its key. -/
theorem node_ext (hg : g.Consistent digest admits) {n m : Node} (hn : n ∈ g.nodes)
    (hm : m ∈ g.nodes) (hlabels : n.labels = m.labels)
    (hkey : (Datum.map n.properties).ordered = (Datum.map m.properties).ordered) : n = m := by
  obtain ⟨label, hlabel, hnid⟩ := hg.node_id hn
  obtain ⟨label', hlabel', hmid⟩ := hg.node_id hm
  obtain rfl : label = label' := by
    rw [hlabel, hlabel'] at hlabels
    exact List.head_eq_of_cons_eq hlabels
  have hparts : Datum.orderedItems [.text label, .map n.properties]
      = Datum.orderedItems [.text label, .map m.properties] := by
    simp only [Datum.orderedItems, hkey]
  have hid : n.id = m.id := by
    rw [hnid, hmid]
    exact congrArg digest (idText_congr hparts)
  have hfound := hg.node?_eq hn
  rw [hid, hg.node?_eq hm] at hfound
  exact (Option.some.inj hfound).symm

/-- A relationship is settled by its type, its ends and its properties. -/
theorem relationship_ext (hg : g.Consistent digest admits) {r q : Relationship}
    (hr : r ∈ g.relationships) (hq : q ∈ g.relationships) (htype : r.type = q.type)
    (hsource : r.sourceId = q.sourceId) (htarget : r.targetId = q.targetId)
    (hattrs : (Datum.map r.properties).ordered = (Datum.map q.properties).ordered) : r = q := by
  have hparts : Datum.orderedItems
      [.text r.type, .text r.sourceId, .text r.targetId, .map r.properties]
        = Datum.orderedItems [.text q.type, .text q.sourceId, .text q.targetId, .map q.properties] := by
    simp only [Datum.orderedItems, htype, hsource, htarget, hattrs]
  have hid : r.id = q.id := by
    rw [hg.relationship_id r hr, hg.relationship_id q hq]
    exact congrArg digest (idText_congr hparts)
  exact List.inj_on_of_nodup_map hg.relationships_nodup hr hq hid

/-- A call is expanded with the two functions that are stored at its ends. -/
theorem callRecord_eq (hg : g.Consistent digest admits) {r : Relationship}
    (hr : r ∈ g.relationships) : ∃ source target, g.node? r.sourceId = some source ∧
      g.node? r.targetId = some target ∧ g.callRecord r = .ok ⟨source, r, target⟩ := by
  obtain ⟨source, hsource⟩ := hg.source_mem r hr
  obtain ⟨target, htarget⟩ := hg.target_mem r hr
  refine ⟨source, target, hsource, htarget, ?_⟩
  rw [callRecord, endNode, hsource, endNode, htarget]
  rfl

theorem expandCalls_eq (hg : g.Consistent digest admits) (id : String) :
    ∃ found, g.expandCalls id = .ok found ∧ found.map CallRecord.relationship
      = g.relationships.filter fun r ↦ r.type == calls && (r.sourceId == id || r.targetId == id) := by
  have hall : ∀ rs : List Relationship, (∀ r ∈ rs, r ∈ g.relationships) →
      ∃ found, rs.mapM g.callRecord = .ok found ∧ found.map CallRecord.relationship = rs := by
    intro rs hrs
    induction rs with
    | nil => exact ⟨[], rfl, rfl⟩
    | cons r rs ih =>
      rw [List.forall_mem_cons] at hrs
      obtain ⟨source, target, -, -, hrecord⟩ := hg.callRecord_eq hrs.1
      obtain ⟨found, hfound, hmap⟩ := ih hrs.2
      refine ⟨⟨source, r, target⟩ :: found, ?_, congrArg (r :: ·) hmap⟩
      rw [List.mapM_cons, hrecord, hfound]
      rfl
  exact hall _ fun r hr ↦ List.mem_of_mem_filter hr

theorem sum_stats (hg : g.Consistent digest admits) :
    (g.stats.nodes.map Prod.snd).sum = g.nodes.length ∧
      (g.stats.relationships.map Prod.snd).sum = g.relationships.length := by
  have hlabels : ∀ n ∈ g.nodes, n.labels.length = 1 := by
    intro n hn
    obtain ⟨label, hlabel, -⟩ := hg.node_id hn
    rw [hlabel, List.length_singleton]
  constructor
  · rw [stats, sum_tally, List.length_flatMap, List.map_congr_left hlabels, List.map_const',
      List.sum_replicate_nat, Nat.mul_one]
  · rw [stats, sum_tally, List.length_map]

/-! ## Every operation keeps it -/

/-- Also a request that fails: the ends that it has added are in order. -/
theorem answer? (hg : g.Consistent digest fun _ ↦ True) {r : Request} {x : Except Fault r.Reply}
    {h : Graph} (hx : g.answer? digest r = some (x, h)) : h.Consistent digest fun _ ↦ True := by
  have hany : ∀ ps : Props, ∀ e ∈ ps, True := fun _ _ _ ↦ trivial
  cases r with
  | mergeNode label key =>
    simp only [Graph.answer?, Option.some.injEq] at hx
    split at hx
    · exact (Prod.mk.inj hx).2 ▸ hg.mergeNode (hany key)
    · exact (Prod.mk.inj hx).2 ▸ hg
  | mergeRelationship type fromLabel fromKey toLabel toKey attrs =>
    simp only [Graph.answer?, Option.some.injEq] at hx
    split_ifs at hx
    · exact (Prod.mk.inj hx).2 ▸ hg.mergeRelationship (hany fromKey) (hany toKey) (hany _)
    · exact (Prod.mk.inj hx).2 ▸ (hg.mergeNode (hany fromKey)).mergeNode (hany toKey)
    · exact (Prod.mk.inj hx).2 ▸ hg.mergeNode (hany fromKey)
    · exact (Prod.mk.inj hx).2 ▸ hg
  | findRelationships type fromLabel fromKey attrs =>
    simp only [Graph.answer?, Option.some.injEq] at hx
    split at hx
    · exact (Prod.mk.inj hx).2 ▸ hg
    · exact (Prod.mk.inj hx).2 ▸ hg
  | deleteRelationship type fromLabel fromKey toLabel toKey attrs =>
    simp only [Graph.answer?, Option.some.injEq] at hx
    split at hx
    · exact (Prod.mk.inj hx).2 ▸ hg.without _
    · exact (Prod.mk.inj hx).2 ▸ hg
  | expandCalls id =>
    simp only [Graph.answer?, Option.some.injEq] at hx
    exact (Prod.mk.inj hx).2 ▸ hg
  | graphStats =>
    simp only [Graph.answer?, Option.some.injEq] at hx
    exact (Prod.mk.inj hx).2 ▸ hg
  | _ => exact absurd hx (by simp [Graph.answer?])

end Consistent

end Graph

/-! ## Runs of the store -/

namespace Store

variable {digest : Digest} {s t : Store} {g : Graph}

/-- A call that may change the store. Keys and attributes are any data. -/
inductive Change where
  | mergeNode (label : String) (key : Props)
  | mergeRelationship (type fromLabel : String) (fromKey : Props) (toLabel : String)
      (toKey attrs : Props)
  | deleteRelationship (type fromLabel : String) (fromKey : Props) (toLabel : String)
      (toKey attrs : Props)
  | clear

/-- The store after the call, which may have failed. -/
def Change.run (digest : Digest) (s : Store) : Change → Store
  | mergeNode label key => (s.changed (s.mergeNode digest label key)).2
  | mergeRelationship type fromLabel fromKey toLabel toKey attrs =>
    (s.mergeRelationship digest type fromLabel fromKey toLabel toKey attrs).2
  | deleteRelationship type fromLabel fromKey toLabel toKey attrs =>
    (s.changed (s.deleteRelationship digest type fromLabel fromKey toLabel toKey attrs)).2
  | clear => s.clear

/-- The store that changes make of an empty one. -/
def afterChanges (digest : Digest) (changes : List Change) : Store :=
  changes.foldl (Change.run digest) .empty

theorem exists_consistent_answer (hs : s.Holds g) (hg : g.Consistent digest fun _ ↦ True)
    {r : Request} {x : Except Fault r.Reply} (hx : s.answer? digest r = some (x, t)) :
    ∃ h, t.Holds h ∧ h.Consistent digest fun _ ↦ True := by
  have hstore := Graph.answer?_store digest hs r
  cases hg' : g.answer? digest r with
  | none =>
    rw [hg', hx] at hstore
    exact nomatch hstore
  | some answer =>
    obtain ⟨y, h⟩ := answer
    rw [hg'] at hstore
    obtain ⟨t', ht', hh⟩ := hstore
    rw [hx, Option.some.injEq, Prod.mk.injEq] at ht'
    exact ⟨h, ht'.2 ▸ hh, hg.answer? hg'⟩

theorem exists_consistent_run (hs : s.Holds g) (hg : g.Consistent digest fun _ ↦ True)
    (c : Change) : ∃ h, (c.run digest s).Holds h ∧ h.Consistent digest fun _ ↦ True := by
  cases c with
  | mergeNode label key => exact exists_consistent_answer (r := .mergeNode label key) hs hg rfl
  | mergeRelationship type fromLabel fromKey toLabel toKey attrs =>
    exact exists_consistent_answer
      (r := .mergeRelationship type fromLabel fromKey toLabel toKey (some attrs)) hs hg rfl
  | deleteRelationship type fromLabel fromKey toLabel toKey attrs =>
    exact exists_consistent_answer
      (r := .deleteRelationship type fromLabel fromKey toLabel toKey (some attrs)) hs hg rfl
  | clear => exact ⟨.empty, holds_empty, Graph.consistent_empty⟩

theorem exists_consistent_afterChanges (digest : Digest) (changes : List Change) :
    ∃ g, (afterChanges digest changes).Holds g ∧ g.Consistent digest fun _ ↦ True := by
  induction changes using List.reverseRecOn with
  | nil => exact ⟨.empty, holds_empty, Graph.consistent_empty⟩
  | append_singleton changes c ih =>
    obtain ⟨g, hs, hg⟩ := ih
    rw [afterChanges, List.foldl_append]
    exact exists_consistent_run hs hg c

/-- **Every store is in order.** After any changes on an empty store, whatever the digest:

* a node has one label, and its id is the digest of this label and its properties; the id of a
  relationship is the digest of its type, its ends and its properties;
* both ends of a relationship are stored, so that listing the relationships of a node, expanding the
  calls of a function and listing all relationships succeed; a listing from a key that cannot be
  written fails for that reason and no other;
* no id is stored twice, no two nodes have the same label and key, and no two relationships the same
  type, ends and properties;
* the counts by label and by type add up to the numbers of nodes and of relationships. -/
theorem inOrder_afterChanges (digest : Digest) (changes : List Change) :
    ∃ g m, (afterChanges digest changes).content = .graph g m ∧
      (∀ n ∈ g.nodes, ∃ label, n.labels = [label] ∧
        n.id = Graph.nodeId digest label n.properties) ∧
      (∀ r ∈ g.relationships,
        r.id = Graph.relationshipId digest r.type r.sourceId r.targetId r.properties) ∧
      (∀ r ∈ g.relationships,
        (∃ n ∈ g.nodes, n.id = r.sourceId) ∧ ∃ n ∈ g.nodes, n.id = r.targetId) ∧
      (g.nodes.map Node.id).Nodup ∧ (g.relationships.map Relationship.id).Nodup ∧
      (∀ n ∈ g.nodes, ∀ n' ∈ g.nodes, n.labels = n'.labels →
        (Datum.map n.properties).ordered = (Datum.map n'.properties).ordered → n = n') ∧
      (∀ r ∈ g.relationships, ∀ r' ∈ g.relationships, r.type = r'.type →
        r.sourceId = r'.sourceId → r.targetId = r'.targetId →
        (Datum.map r.properties).ordered = (Datum.map r'.properties).ordered → r = r') ∧
      (∀ type label key attrs,
        (afterChanges digest changes).findRelationships digest type label key attrs
          = if Json.isWritable (.map key) then
              .ok (g.edgesFrom type (Graph.nodeId digest label key) attrs)
            else .error Graph.noWrittenForm) ∧
      (∀ id, ∃ found, (afterChanges digest changes).expandCalls id = .ok found ∧
        found.map CallRecord.relationship = g.relationships.filter fun r ↦
          r.type == Graph.calls && (r.sourceId == id || r.targetId == id)) ∧
      (∀ type, (afterChanges digest changes).allRelationships type
        = .ok (g.allRelationships type)) ∧
      ∃ counts, (afterChanges digest changes).stats = .ok counts ∧
        (counts.nodes.map Prod.snd).sum = g.nodes.length ∧
        (counts.relationships.map Prod.snd).sum = g.relationships.length := by
  obtain ⟨g, ⟨m, hm⟩, hg⟩ := exists_consistent_afterChanges digest changes
  have hends : ∀ {id : String}, (∃ n, g.node? id = some n) → ∃ n ∈ g.nodes, n.id = id :=
    fun ⟨n, hn⟩ ↦ ⟨n, Graph.mem_of_node? hn⟩
  refine ⟨g, m, hm, fun n ↦ hg.node_id, hg.relationship_id, fun r hr ↦ ?_, hg.nodes_nodup,
    hg.relationships_nodup, fun n hn n' hn' ↦ hg.node_ext hn hn',
    fun r hr q hq ↦ hg.relationship_ext hr hq, ?_, ?_, ?_, ?_⟩
  · exact ⟨hends (hg.source_mem r hr), hends (hg.target_mem r hr)⟩
  · intro type label key attrs
    rw [findRelationships, Graph.checkWritable, List.all_cons, List.all_nil, Bool.and_true]
    by_cases hkey : Json.isWritable (.map key)
    · rw [if_pos hkey, if_pos hkey, ← hg.findRelationships_eq, look, hm]
      rfl
    · rw [if_neg hkey, if_neg hkey]
      rfl
  · intro id
    rw [expandCalls, look, hm]
    exact hg.expandCalls_eq id
  · intro type
    rw [allRelationships, look, hm]
  · rw [stats, look, hm]
    exact ⟨g.stats, rfl, hg.sum_stats⟩

/-- A relationship whose attributes have no written form is not added, but its ends are. -/
example : ((afterChanges id [.mergeRelationship "T" "A" [] "B" [] [("on", .date "2024-01-01")]]).stats
    |>.toOption.map fun counts ↦ (counts.nodes, counts.relationships))
      = some ([("A", 1), ("B", 1)], []) := by
  decide +kernel

end Store

end CodeAtlas
