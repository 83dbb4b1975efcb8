import CodeAtlas.Proofs.Graph.TextMaps

/-!
# Labelled graphs and their histories

A labelled graph has no ids: its nodes are labels with keys, its edges are types with two nodes and
attributes, and keys and attributes are finite maps, in which nothing has a place. Only the nodes
and edges themselves stand in an order, that of their insertion.

## What a history makes of a graph

`LabelledGraph.after` runs through a list of changes from the empty graph. The answers to questions
about the outcome do not need the run. A node is there if some change named it after the last
clearing, and an edge is there if it was merged and no later change took it away. Merging an edge
that is there inserts nothing; the edges stand in the order of the changes that did insert them.
-/

namespace CodeAtlas

structure LabelledNode where
  label : String
  key : TextMap
  deriving DecidableEq

structure LabelledEdge where
  type : String
  source : LabelledNode
  target : LabelledNode
  attrs : TextMap
  deriving DecidableEq

/-- Is it an edge of the type that leaves the node and has the attributes? -/
def LabelledEdge.Leaves (e : LabelledEdge) (type : String) (source : LabelledNode)
    (attrs : TextMap) : Prop :=
  e.type = type ∧ e.source = source ∧ e.attrs.Includes attrs

/-- Is it an edge of the type between the two nodes that has the attributes? -/
def LabelledEdge.Joins (e : LabelledEdge) (type : String) (source target : LabelledNode)
    (attrs : TextMap) : Prop :=
  e.type = type ∧ e.source = source ∧ e.target = target ∧ e.attrs.Includes attrs

instance (e : LabelledEdge) (type : String) (source : LabelledNode) (attrs : TextMap) :
    Decidable (e.Leaves type source attrs) :=
  inferInstanceAs (Decidable (_ ∧ _))

instance (e : LabelledEdge) (type : String) (source target : LabelledNode) (attrs : TextMap) :
    Decidable (e.Joins type source target attrs) :=
  inferInstanceAs (Decidable (_ ∧ _))

/-- Nodes and edges in the order of their insertion. -/
structure LabelledGraph where
  nodes : List LabelledNode
  edges : List LabelledEdge

inductive LabelledChange where
  | mergeNode (n : LabelledNode)
  | mergeEdge (e : LabelledEdge)
  | deleteEdges (type : String) (source target : LabelledNode) (attrs : TextMap)
  | clear

namespace LabelledGraph

def empty : LabelledGraph := ⟨[], []⟩

def addNode (n : LabelledNode) (g : LabelledGraph) : LabelledGraph :=
  if n ∈ g.nodes then g else { g with nodes := g.nodes ++ [n] }

def addEdge (e : LabelledEdge) (g : LabelledGraph) : LabelledGraph :=
  if e ∈ g.edges then g else { g with edges := g.edges ++ [e] }

/-- The graph after a change. An edge comes with both of its ends, and leaves without them. -/
def change (g : LabelledGraph) : LabelledChange → LabelledGraph
  | .mergeNode n => g.addNode n
  | .mergeEdge e => ((g.addNode e.source).addNode e.target).addEdge e
  | .deleteEdges type source target attrs =>
    { g with edges := g.edges.filter fun e ↦ ¬ e.Joins type source target attrs }
  | .clear => empty

/-- The graph after a history of changes. -/
def after (changes : List LabelledChange) : LabelledGraph := changes.foldl change empty

end LabelledGraph

/-! ## What a history says -/

namespace LabelledChange

/-- The nodes that are there after the change because of it. -/
def names : LabelledChange → List LabelledNode
  | mergeNode n => [n]
  | mergeEdge e => [e.source, e.target]
  | _ => []

/-- Does the change take the edge away, if it is there? -/
def Removes (e : LabelledEdge) : LabelledChange → Prop
  | deleteEdges type source target attrs => e.Joins type source target attrs
  | clear => True
  | _ => False

end LabelledChange

/-- Some change has named the node since the last clearing. -/
def NamedSinceClear (changes : List LabelledChange) (n : LabelledNode) : Prop :=
  ∃ before c after, changes = before ++ c :: after ∧ n ∈ c.names ∧ .clear ∉ after

/-- The edge was merged, and nothing has taken it away since. -/
def Stands (changes : List LabelledChange) (e : LabelledEdge) : Prop :=
  ∃ before after, changes = before ++ .mergeEdge e :: after ∧ ∀ c ∈ after, ¬ c.Removes e

/-- The edge stands since the change at this place, which found it missing. -/
def InsertedAt (changes : List LabelledChange) (i : ℕ) (e : LabelledEdge) : Prop :=
  ∃ before after, changes = before ++ .mergeEdge e :: after ∧ before.length = i ∧
    ¬ Stands before e ∧ ∀ c ∈ after, ¬ c.Removes e

/-- The latest insertion of the one edge came before that of the other. -/
def InsertedBefore (changes : List LabelledChange) (e e' : LabelledEdge) : Prop :=
  ∃ i j, InsertedAt changes i e ∧ InsertedAt changes j e' ∧ i < j

section Snoc

variable {changes : List LabelledChange} {c : LabelledChange}

private theorem snoc_eq_append_cons {d : LabelledChange} {before rest : List LabelledChange} :
    changes ++ [c] = before ++ d :: rest ↔
      (changes = before ∧ c = d ∧ rest = []) ∨
        ∃ after, rest = after ++ [c] ∧ changes = before ++ d :: after := by
  constructor
  · intro h
    rcases List.eq_nil_or_concat rest with rfl | ⟨after, c', rfl⟩
    · obtain ⟨hbefore, hc⟩ := List.append_inj' h rfl
      exact Or.inl ⟨hbefore, (List.cons.inj hc).1, rfl⟩
    · rw [List.concat_eq_append] at h ⊢
      rw [← List.cons_append, ← List.append_assoc] at h
      obtain ⟨hchanges, hc⟩ := List.append_inj' h rfl
      exact Or.inr ⟨after, by rw [(List.cons.inj hc).1], hchanges⟩
  · rintro (⟨rfl, rfl, rfl⟩ | ⟨after, rfl, rfl⟩)
    · rfl
    · rw [List.append_assoc, List.cons_append]

theorem namedSinceClear_snoc {n : LabelledNode} :
    NamedSinceClear (changes ++ [c]) n ↔
      (NamedSinceClear changes n ∧ c ≠ .clear) ∨ n ∈ c.names := by
  constructor
  · rintro ⟨before, d, rest, h, hn, hclear⟩
    rcases snoc_eq_append_cons.mp h with ⟨-, rfl, -⟩ | ⟨after, rfl, hchanges⟩
    · exact Or.inr hn
    · rw [List.mem_append, List.mem_singleton, not_or] at hclear
      exact Or.inl ⟨⟨before, d, after, hchanges, hn, hclear.1⟩, fun hc ↦ hclear.2 hc.symm⟩
  · rintro (⟨⟨before, d, after, rfl, hn, hclear⟩, hc⟩ | hn)
    · refine ⟨before, d, after ++ [c], by rw [List.append_assoc, List.cons_append], hn, ?_⟩
      rw [List.mem_append, List.mem_singleton, not_or]
      exact ⟨hclear, hc.symm⟩
    · exact ⟨changes, c, [], rfl, hn, List.not_mem_nil⟩

theorem stands_snoc {e : LabelledEdge} :
    Stands (changes ++ [c]) e ↔ (Stands changes e ∧ ¬ c.Removes e) ∨ c = .mergeEdge e := by
  constructor
  · rintro ⟨before, rest, h, hrest⟩
    rcases snoc_eq_append_cons.mp h with ⟨-, hc, -⟩ | ⟨after, rfl, hchanges⟩
    · exact Or.inr hc
    · rw [List.forall_mem_append, List.forall_mem_singleton] at hrest
      exact Or.inl ⟨⟨before, after, hchanges, hrest.1⟩, hrest.2⟩
  · rintro (⟨⟨before, after, rfl, hafter⟩, hc⟩ | rfl)
    · refine ⟨before, after ++ [c], by rw [List.append_assoc, List.cons_append], ?_⟩
      rw [List.forall_mem_append, List.forall_mem_singleton]
      exact ⟨hafter, hc⟩
    · exact ⟨changes, [], rfl, fun _ hc ↦ absurd hc List.not_mem_nil⟩

theorem InsertedAt.snoc {i : ℕ} {e : LabelledEdge} (h : InsertedAt changes i e)
    (hc : ¬ c.Removes e) : InsertedAt (changes ++ [c]) i e := by
  obtain ⟨before, after, rfl, hi, hnew, hafter⟩ := h
  refine ⟨before, after ++ [c], by rw [List.append_assoc, List.cons_append], hi, hnew, ?_⟩
  rw [List.forall_mem_append, List.forall_mem_singleton]
  exact ⟨hafter, hc⟩

theorem insertedAt_snoc_self {e : LabelledEdge} (h : ¬ Stands changes e) :
    InsertedAt (changes ++ [.mergeEdge e]) changes.length e :=
  ⟨changes, [], rfl, rfl, h, fun _ hc ↦ absurd hc List.not_mem_nil⟩

theorem InsertedAt.lt_length {i : ℕ} {e : LabelledEdge} (h : InsertedAt changes i e) :
    i < changes.length := by
  obtain ⟨before, after, rfl, rfl, -, -⟩ := h
  rw [List.length_append, List.length_cons]
  omega

theorem InsertedBefore.snoc {e e' : LabelledEdge} (h : InsertedBefore changes e e')
    (hc : ¬ c.Removes e) (hc' : ¬ c.Removes e') : InsertedBefore (changes ++ [c]) e e' := by
  obtain ⟨i, j, hi, hj, hij⟩ := h
  exact ⟨i, j, hi.snoc hc, hj.snoc hc', hij⟩

end Snoc

theorem not_stands_nil (e : LabelledEdge) : ¬ Stands [] e := by
  rintro ⟨before, after, h, -⟩
  exact absurd h (by simp)

/-- An edge that stands was inserted at some time. -/
theorem Stands.exists_insertedAt {changes : List LabelledChange} {e : LabelledEdge}
    (h : Stands changes e) : ∃ i, InsertedAt changes i e := by
  induction changes using List.reverseRecOn with
  | nil => exact absurd h (not_stands_nil e)
  | append_singleton changes c ih =>
    by_cases hold : Stands changes e
    · by_cases hc : c.Removes e
      · -- Only a merge could make up for the removal, and a merge removes nothing.
        rcases stands_snoc.mp h with ⟨-, hkeep⟩ | rfl
        · exact absurd hc hkeep
        · exact hc.elim
      · obtain ⟨i, hi⟩ := ih hold
        exact ⟨i, hi.snoc hc⟩
    · rcases stands_snoc.mp h with ⟨hstands, -⟩ | rfl
      · exact absurd hstands hold
      · exact ⟨_, insertedAt_snoc_self hold⟩

/-! ## The outcome of a history -/

namespace LabelledGraph

theorem mem_nodes_addNode {g : LabelledGraph} {n m : LabelledNode} :
    m ∈ (g.addNode n).nodes ↔ m ∈ g.nodes ∨ m = n := by
  rw [addNode]
  split
  · rename_i hmem
    refine ⟨Or.inl, fun h ↦ h.elim id ?_⟩
    rintro rfl
    exact hmem
  · rw [List.mem_append, List.mem_singleton]

@[simp] theorem edges_addNode (g : LabelledGraph) (n : LabelledNode) :
    (g.addNode n).edges = g.edges := by
  rw [addNode]
  split <;> rfl

@[simp] theorem nodes_addEdge (g : LabelledGraph) (e : LabelledEdge) :
    (g.addEdge e).nodes = g.nodes := by
  rw [addEdge]
  split <;> rfl

theorem after_snoc (changes : List LabelledChange) (c : LabelledChange) :
    after (changes ++ [c]) = (after changes).change c := by
  rw [after, List.foldl_append]
  rfl

theorem edges_change_mergeEdge (g : LabelledGraph) (e : LabelledEdge) :
    (g.change (.mergeEdge e)).edges = if e ∈ g.edges then g.edges else g.edges ++ [e] := by
  rw [change, addEdge]
  simp only [edges_addNode]
  split
  · rw [edges_addNode, edges_addNode]
  · rfl

theorem mem_edges_change {g : LabelledGraph} {c : LabelledChange} {e : LabelledEdge} :
    e ∈ (g.change c).edges ↔ (e ∈ g.edges ∧ ¬ c.Removes e) ∨ c = .mergeEdge e := by
  cases c with
  | mergeNode n => simp [change, LabelledChange.Removes]
  | mergeEdge d =>
    rw [edges_change_mergeEdge]
    by_cases hd : d ∈ g.edges
    · rw [if_pos hd]
      refine ⟨fun h ↦ Or.inl ⟨h, id⟩, fun h ↦ h.elim And.left fun heq ↦ ?_⟩
      rw [← LabelledChange.mergeEdge.inj heq]
      exact hd
    · rw [if_neg hd, List.mem_append, List.mem_singleton]
      simp [LabelledChange.Removes, eq_comm]
  | deleteEdges type source target attrs => simp [change, LabelledChange.Removes]
  | clear => simp [change, empty, LabelledChange.Removes]

theorem mem_nodes_change {g : LabelledGraph} {c : LabelledChange} {n : LabelledNode} :
    n ∈ (g.change c).nodes ↔ (n ∈ g.nodes ∧ c ≠ .clear) ∨ n ∈ c.names := by
  cases c with
  | mergeNode m => simp [change, mem_nodes_addNode, LabelledChange.names]
  | mergeEdge e => simp [change, mem_nodes_addNode, LabelledChange.names, or_assoc]
  | deleteEdges type source target attrs => simp [change, LabelledChange.names]
  | clear => simp [change, empty, LabelledChange.names]

/-- **The nodes** are those that have been named since the last clearing. -/
theorem mem_nodes_after {changes : List LabelledChange} {n : LabelledNode} :
    n ∈ (after changes).nodes ↔ NamedSinceClear changes n := by
  induction changes using List.reverseRecOn with
  | nil => simp [after, empty, NamedSinceClear]
  | append_singleton changes c ih => rw [after_snoc, mem_nodes_change, ih, namedSinceClear_snoc]

/-- **The edges** are those that stand. -/
theorem mem_edges_after {changes : List LabelledChange} {e : LabelledEdge} :
    e ∈ (after changes).edges ↔ Stands changes e := by
  induction changes using List.reverseRecOn with
  | nil => exact ⟨fun h ↦ absurd h List.not_mem_nil, fun h ↦ absurd h (not_stands_nil e)⟩
  | append_singleton changes c ih => rw [after_snoc, mem_edges_change, ih, stands_snoc]

theorem nodup_edges_after (changes : List LabelledChange) : (after changes).edges.Nodup := by
  induction changes using List.reverseRecOn with
  | nil => exact List.nodup_nil
  | append_singleton changes c ih =>
    rw [after_snoc]
    cases c with
    | mergeNode n => simpa only [change, edges_addNode] using ih
    | mergeEdge e =>
      rw [edges_change_mergeEdge]
      split
      · exact ih
      · rename_i hnew
        rw [← List.concat_eq_append]
        exact ih.concat hnew
    | deleteEdges type source target attrs => exact ih.filter _
    | clear => exact List.nodup_nil

/-- **The order** of the edges is that of their latest insertions. -/
theorem pairwise_edges_after (changes : List LabelledChange) :
    (after changes).edges.Pairwise (InsertedBefore changes) := by
  induction changes using List.reverseRecOn with
  | nil => exact List.Pairwise.nil
  | append_singleton changes c ih =>
    -- What the change does not remove keeps its order.
    have hkeep : ∀ es : List LabelledEdge, es.Sublist (after changes).edges →
        (∀ e ∈ es, ¬ c.Removes e) → es.Pairwise (InsertedBefore (changes ++ [c])) := by
      intro es hsub hes
      refine (ih.sublist hsub).imp_of_mem fun he he' hbefore ↦ ?_
      exact hbefore.snoc (hes _ he) (hes _ he')
    rw [after_snoc]
    cases c with
    | mergeNode n =>
      rw [change, edges_addNode]
      exact hkeep _ (List.Sublist.refl _) fun _ _ ↦ id
    | mergeEdge e =>
      rw [edges_change_mergeEdge]
      split
      · exact hkeep _ (List.Sublist.refl _) fun _ _ ↦ id
      · rename_i hnew
        rw [mem_edges_after] at hnew
        rw [List.pairwise_append]
        refine ⟨hkeep _ (List.Sublist.refl _) fun _ _ ↦ id, List.pairwise_singleton _ _, ?_⟩
        intro d hd d' hd'
        obtain rfl := List.mem_singleton.mp hd'
        obtain ⟨i, hi⟩ := (mem_edges_after.mp hd).exists_insertedAt
        exact ⟨i, changes.length, hi.snoc id, insertedAt_snoc_self hnew, hi.lt_length⟩
    | deleteEdges type source target attrs =>
      refine hkeep _ List.filter_sublist fun e he ↦ ?_
      have hjoins := (List.mem_filter.mp he).2
      rw [decide_eq_true_eq] at hjoins
      exact hjoins
    | clear => exact List.Pairwise.nil

end LabelledGraph

end CodeAtlas
