import CodeAtlas.Query.Subgraph
import Mathlib.Data.List.Nodup

/-!
# The elements of an answer

A subgraph is collected while the records are walked through, and whether an element is taken then
depends on what has been taken before. What comes out can be said without that: write down every
element of the records in the order in which it stands there (`Value.elements`), drop what is not
wanted, and keep of each id what comes first (`ofRecords_elements`).

The order of the two steps matters. An id may occur with different labels, and then the first
occurrence that is wanted is kept, not the first one if it is wanted. So an id is missing from the
subgraph only if no occurrence of it is wanted.
-/

namespace CodeAtlas

/-! ## Writing the elements down -/

namespace Value

mutual

/-- The nodes and relationships in a value, in the order in which they stand there. A path has its
nodes before its relationships. -/
def elements : Value → List (Node ⊕ Relationship)
  | .plain _ => []
  | .node n => [.inl n]
  | .relationship r => [.inr r]
  | .path nodes relationships => nodes.map .inl ++ relationships.map .inr
  | .list items | .tuple items => elementsOfAll items
  | .map entries => elementsOfEntries entries

def elementsOfAll : List Value → List (Node ⊕ Relationship)
  | [] => []
  | v :: rest => elements v ++ elementsOfAll rest

def elementsOfEntries : List (String × Value) → List (Node ⊕ Relationship)
  | [] => []
  | (_, v) :: rest => elements v ++ elementsOfEntries rest

end

theorem elementsOfEntries_eq (entries : List (String × Value)) :
    elementsOfEntries entries = entries.flatMap fun e ↦ e.2.elements := by
  induction entries with
  | nil => rfl
  | cons e entries ih => rw [elementsOfEntries, ih, List.flatMap_cons]

end Value

namespace Record

/-- The nodes in records, in the order in which they stand there. -/
def nodes (records : List Record) : List Node :=
  (records.flatMap fun record ↦ record.flatMap fun e ↦ e.2.elements).filterMap Sum.getLeft?

/-- The relationships in records, in the order in which they stand there. -/
def relationships (records : List Record) : List Relationship :=
  (records.flatMap fun record ↦ record.flatMap fun e ↦ e.2.elements).filterMap Sum.getRight?

end Record

/-! ## Taking one after the other -/

/-- Takes one more unless it is not wanted or its id has been taken. -/
def takeNew {α : Type} (wants : α → Bool) (id : α → String) (taken : List α) (x : α) : List α :=
  if taken.any (fun y ↦ id y == id x) || !wants x then taken else taken ++ [x]

section

variable {α : Type} {wants : α → Bool} {id : α → String} {taken xs : List α} {x : α}

theorem takeNew_cases (wants : α → Bool) (id : α → String) (taken : List α) (x : α) :
    takeNew wants id taken x = taken ∧ ((∃ y ∈ taken, id y = id x) ∨ wants x = false) ∨
      takeNew wants id taken x = taken ++ [x] ∧ (∀ y ∈ taken, id y ≠ id x) ∧ wants x = true := by
  rw [takeNew]
  split
  · rename_i h
    exact Or.inl ⟨rfl, by simpa using h⟩
  · rename_i h
    exact Or.inr ⟨rfl, by simpa using h⟩

/-- What is taken in the end: of each id that has not been taken before, the first that is
wanted. -/
theorem foldl_takeNew (wants : α → Bool) (id : α → String) (taken xs : List α) :
    xs.foldl (takeNew wants id) taken = taken ++
      ((xs.filter wants).filter fun x ↦ taken.all fun y ↦ id y != id x).eraseDupsBy
        fun x y ↦ id x == id y := by
  induction xs generalizing taken with
  | nil => simp
  | cons x xs ih =>
    rw [List.foldl_cons, ih]
    obtain ⟨htaken, hold | hunwanted⟩ | ⟨htaken, hnew, hwanted⟩ :=
      takeNew_cases wants id taken x
    · obtain ⟨y, hy, hid⟩ := hold
      have hseen : (taken.all fun y ↦ id y != id x) = false := by
        rw [List.all_eq_false]
        exact ⟨y, hy, by simp [hid]⟩
      rw [htaken, List.filter_cons]
      split
      · rw [List.filter_cons_of_neg (by simp [hseen])]
      · rfl
    · rw [htaken, List.filter_cons_of_neg (by simp [hunwanted])]
    · have hfresh : (taken.all fun y ↦ id y != id x) = true := by
        rw [List.all_eq_true]
        intro y hy
        simpa using hnew y hy
      -- Taking `x` leaves out from then on what has the id of `x`, and so does erasing.
      have hleft (ys : List α) : ys.filter (fun z ↦ (taken ++ [x]).all fun y ↦ id y != id z)
          = (ys.filter fun z ↦ taken.all fun y ↦ id y != id z).filter
              fun z ↦ (id z == id x) = false := by
        rw [List.filter_filter]
        apply List.filter_congr
        intro z _
        rw [List.all_append, Bool.and_comm, List.all_cons, List.all_nil, Bool.and_true, bne_comm,
          bne, Bool.decide_eq_false]
      rw [htaken, hleft, List.filter_cons_of_pos hwanted, List.filter_cons, if_pos hfresh,
        List.eraseDupsBy_cons, List.append_assoc, List.singleton_append]

theorem nodup_foldl_takeNew (h : (taken.map id).Nodup) (xs : List α) :
    ((xs.foldl (takeNew wants id) taken).map id).Nodup := by
  induction xs generalizing taken with
  | nil => exact h
  | cons x xs ih =>
    rw [List.foldl_cons]
    apply ih
    obtain ⟨htaken, -⟩ | ⟨htaken, hnew, -⟩ :=
      takeNew_cases wants id taken x
    · rwa [htaken]
    · rw [htaken, List.map_append, List.nodup_append]
      refine ⟨h, List.nodup_singleton _, ?_⟩
      intro i hi j hj
      obtain ⟨y, hy, rfl⟩ := List.mem_map.mp hi
      rw [List.map_singleton, List.mem_singleton] at hj
      rw [hj]
      exact hnew y hy

/-- Where no id occurs twice, everything is taken as far as it is wanted. -/
theorem foldl_takeNew_of_nodup (wants : α → Bool) {id : α → String}
    (h : ((taken ++ xs).map id).Nodup) :
    xs.foldl (takeNew wants id) taken = taken ++ xs.filter wants := by
  induction xs generalizing taken with
  | nil => simp
  | cons x xs ih =>
    have hrest : ((taken ++ xs).map id).Nodup :=
      h.sublist (((List.sublist_cons_self x xs).append_left taken).map id)
    rw [List.foldl_cons]
    obtain ⟨-, ⟨y, hy, hid⟩ | hunwanted⟩ | ⟨htaken, -, hwanted⟩ := takeNew_cases wants id taken x
    · rw [List.map_append, List.map_cons, List.nodup_append] at h
      exact absurd hid (h.2.2 _ (List.mem_map_of_mem hy) _ List.mem_cons_self)
    · rw [takeNew, hunwanted, Bool.not_false, Bool.or_true, if_pos rfl, ih hrest,
        List.filter_cons_of_neg (by simp [hunwanted])]
    · rw [htaken, ih (by rwa [List.append_assoc]), List.filter_cons_of_pos hwanted,
        List.append_assoc, List.singleton_append]

/-- An id that has been taken, or that occurs where it is wanted, is there in the end. -/
theorem map_subset_map_foldl_takeNew (wants : α → Bool) (id : α → String) (taken xs : List α) :
    taken.map id ++ (xs.filter wants).map id ⊆ (xs.foldl (takeNew wants id) taken).map id := by
  induction xs generalizing taken with
  | nil => simp
  | cons x xs ih =>
    rw [List.foldl_cons]
    refine List.Subset.trans ?_ (ih _)
    obtain ⟨htaken, hold | hunwanted⟩ | ⟨htaken, -, hwanted⟩ :=
      takeNew_cases wants id taken x
    · obtain ⟨y, hy, hid⟩ := hold
      have hx : id x ∈ taken.map id := hid ▸ List.mem_map_of_mem hy
      rw [htaken, List.filter_cons]
      split
      · rw [List.map_cons]
        grind
      · exact fun _ h ↦ h
    · rw [htaken, List.filter_cons_of_neg (by simp [hunwanted])]
      exact fun _ h ↦ h
    · rw [htaken, List.filter_cons_of_pos hwanted]
      simp

end

namespace Subgraph

variable {f : Filter} {s : Subgraph}

/-! ## Collecting -/

/-- Adds an element as far as it is wanted. -/
def add (f : Filter) (s : Subgraph) : Node ⊕ Relationship → Subgraph
  | .inl n => s.addNode f n
  | .inr r => s.addRelationship f r

mutual

/-- Walking through a value is adding its elements in their order. -/
theorem visit_eq_foldl (s : Subgraph) (v : Value) :
    visit f s v = v.elements.foldl (add f) s := by
  cases v with
  | plain d => rfl
  | node n => rfl
  | relationship r => rfl
  | path nodes relationships =>
    rw [visit, Value.elements, List.foldl_append, List.foldl_map, List.foldl_map]
    rfl
  | list items => exact visitAll_eq_foldl s items
  | tuple items => exact visitAll_eq_foldl s items
  | map entries => exact visitEntries_eq_foldl s entries

theorem visitAll_eq_foldl (s : Subgraph) (vs : List Value) :
    visitAll f s vs = (Value.elementsOfAll vs).foldl (add f) s := by
  cases vs with
  | nil => rfl
  | cons v vs =>
    rw [visitAll, Value.elementsOfAll, List.foldl_append, ← visit_eq_foldl s v,
      visitAll_eq_foldl _ vs]

theorem visitEntries_eq_foldl (s : Subgraph) (entries : List (String × Value)) :
    visitEntries f s entries = (Value.elementsOfEntries entries).foldl (add f) s := by
  cases entries with
  | nil => rfl
  | cons e entries =>
    rw [visitEntries, Value.elementsOfEntries, List.foldl_append, ← visit_eq_foldl s e.2,
      visitEntries_eq_foldl _ entries]

end

theorem nodes_foldl_add (s : Subgraph) (elements : List (Node ⊕ Relationship)) :
    (elements.foldl (add f) s).nodes
      = (elements.filterMap Sum.getLeft?).foldl (takeNew f.wantsNode Node.id) s.nodes := by
  induction elements generalizing s with
  | nil => rfl
  | cons e elements ih =>
    rw [List.foldl_cons, ih]
    cases e with
    | inl n =>
      rw [List.filterMap_cons_some (Sum.getLeft?_inl), List.foldl_cons, add, addNode, takeNew]
      split <;> rfl
    | inr r =>
      rw [List.filterMap_cons_none (Sum.getLeft?_inr), add, addRelationship]
      split <;> rfl

theorem relationships_foldl_add (s : Subgraph) (elements : List (Node ⊕ Relationship)) :
    (elements.foldl (add f) s).relationships
      = (elements.filterMap Sum.getRight?).foldl (takeNew f.wantsRelationship Relationship.id)
          s.relationships := by
  induction elements generalizing s with
  | nil => rfl
  | cons e elements ih =>
    rw [List.foldl_cons, ih]
    cases e with
    | inl n =>
      rw [List.filterMap_cons_none (Sum.getRight?_inl), add, addNode]
      split <;> rfl
    | inr r =>
      rw [List.filterMap_cons_some (Sum.getRight?_inr), List.foldl_cons, add, addRelationship,
        takeNew]
      split <;> rfl

theorem elementsOfAll_records (records : List Record) :
    Value.elementsOfAll (records.map .map)
      = records.flatMap fun record ↦ record.flatMap fun e ↦ e.2.elements := by
  induction records with
  | nil => rfl
  | cons record records ih =>
    rw [List.map_cons, Value.elementsOfAll, ih, List.flatMap_cons, Value.elements,
      Value.elementsOfEntries_eq]

theorem nodes_ofRecords (f : Filter) (records : List Record) :
    (ofRecords f records).nodes
      = (Record.nodes records).foldl (takeNew f.wantsNode Node.id) [] := by
  rw [ofRecords, ofValues, visitAll_eq_foldl, nodes_foldl_add, elementsOfAll_records, Record.nodes]

theorem relationships_ofRecords (f : Filter) (records : List Record) :
    (ofRecords f records).relationships = (Record.relationships records).foldl
      (takeNew f.wantsRelationship Relationship.id) [] := by
  rw [ofRecords, ofValues, visitAll_eq_foldl, relationships_foldl_add, elementsOfAll_records,
    Record.relationships]

/-- Nodes of which no id occurs twice are the nodes of their subgraph. -/
theorem nodes_ofValues_node {α : Type} {xs : List α} {node : α → Node}
    (h : ((xs.map node).map Node.id).Nodup) :
    (ofValues .everything (xs.map fun x ↦ .node (node x))).nodes = xs.map node := by
  have helements : (Value.elementsOfAll (xs.map fun x ↦ .node (node x))).filterMap Sum.getLeft?
      = xs.map node := by
    clear h
    induction xs with
    | nil => rfl
    | cons x xs ih => exact congrArg (node x :: ·) ih
  have hall : (xs.map node).filter Filter.everything.wantsNode = xs.map node :=
    List.filter_eq_self.mpr fun _ _ ↦ rfl
  rw [ofValues, visitAll_eq_foldl, nodes_foldl_add, helements, foldl_takeNew_of_nodup _ h, hall,
    List.nil_append]

/-- **A subgraph holds the first wanted occurrence of each id.** Its nodes are the nodes in the
records, restricted to those that share a label with the filter (all of them if it names none), of
which the first is kept for each id; and likewise its relationships. So no id occurs twice, and the
id of everything that is wanted occurs. -/
theorem ofRecords_elements (f : Filter) (records : List Record) :
    (ofRecords f records).nodes = ((Record.nodes records).filter fun n ↦
        f.labels = [] ∨ ∃ label ∈ n.labels, label ∈ f.labels).eraseDupsBy
          (fun m n ↦ m.id == n.id) ∧
      (ofRecords f records).relationships = ((Record.relationships records).filter fun r ↦
        f.types = [] ∨ r.type ∈ f.types).eraseDupsBy (fun q r ↦ q.id == r.id) ∧
      ((ofRecords f records).nodes.map Node.id).Nodup ∧
      ((ofRecords f records).relationships.map Relationship.id).Nodup ∧
      ((Record.nodes records).filter fun n ↦
        f.labels = [] ∨ ∃ label ∈ n.labels, label ∈ f.labels).map Node.id
          ⊆ (ofRecords f records).nodes.map Node.id ∧
      ((Record.relationships records).filter fun r ↦
        f.types = [] ∨ r.type ∈ f.types).map Relationship.id
          ⊆ (ofRecords f records).relationships.map Relationship.id := by
  have hnodes : f.wantsNode = fun n ↦
      decide (f.labels = [] ∨ ∃ label ∈ n.labels, label ∈ f.labels) := by
    funext n
    rw [Bool.eq_iff_iff]
    simp [Filter.wantsNode]
  have hrelationships : f.wantsRelationship = fun r ↦ decide (f.types = [] ∨ r.type ∈ f.types) := by
    funext r
    rw [Bool.eq_iff_iff]
    simp [Filter.wantsRelationship]
  rw [← hnodes, ← hrelationships, nodes_ofRecords, relationships_ofRecords]
  refine ⟨?_, ?_, nodup_foldl_takeNew (by simp) _, nodup_foldl_takeNew (by simp) _,
    map_subset_map_foldl_takeNew _ _ [] _, map_subset_map_foldl_takeNew _ _ [] _⟩
  · simp [foldl_takeNew]
  · simp [foldl_takeNew]

/-- The first occurrence of an id is left out because of its label, the second one is kept, and the
third one comes too late. -/
example : ((ofRecords ⟨["File"], []⟩
    [[("a", .list [.node ⟨"1", [], []⟩, .tuple [.node ⟨"1", ["File"], []⟩]])],
      [("b", .path [⟨"1", ["File", "Big"], []⟩] [])]]).nodes.map Node.labels) = [["File"]] := rfl

end Subgraph

end CodeAtlas
