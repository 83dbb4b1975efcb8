import CodeAtlas.Syntax.Outline
import Mathlib.Data.List.Basic
import Mathlib.Data.List.Lex

/-!
# Walking through a tree

A node of a tree has an address: the numbers of the children that lead to it. A node comes before
what is below it, and that comes before all later siblings, so the text order of nodes is the
lexicographic order of addresses.

A walk goes through the nodes in this order (`pairwise_visited`) and does not go below nodes of
some kinds. It comes by everything that has no such node above it (`mem_visited`).
-/

namespace CodeAtlas.Syntax.Tree

/-! ## Nodes and their addresses -/

@[elab_as_elim]
theorem induct {P : Tree → Prop}
    (node : ∀ kind role span children, (∀ c ∈ children, P c) → P (.node kind role span children))
    (t : Tree) : P t :=
  Tree.rec (motive_1 := P) (motive_2 := fun ts ↦ ∀ t ∈ ts, P t) node
    (fun _ ht ↦ absurd ht List.not_mem_nil)
    (fun _ _ ht hts ↦ List.forall_mem_cons.mpr ⟨ht, hts⟩) t

/-- The node at an address. -/
def at? : List Nat → Tree → Option Tree
  | [], t => some t
  | i :: a, t => t.children[i]?.bind (at? a)

theorem at?_cons {i : Nat} {a : List Nat} {t c : Tree} (h : t.children[i]? = some c) :
    t.at? (i :: a) = c.at? a := by
  rw [at?, h, Option.bind_some]

theorem at?_cons_eq_some {i : Nat} {a : List Nat} {t n : Tree} :
    t.at? (i :: a) = some n ↔ ∃ c, t.children[i]? = some c ∧ c.at? a = some n :=
  Option.bind_eq_some_iff

/-! ## Walks -/

mutual

/-- The addresses of the nodes that a walk comes by. -/
def visited (stops : Kind → Bool) : Tree → List (List Nat)
  | .node k _ _ cs => [] :: if stops k then [] else visitedAll stops 0 cs

def visitedAll (stops : Kind → Bool) (i : Nat) : List Tree → List (List Nat)
  | [] => []
  | t :: ts => (visited stops t).map (i :: ·) ++ visitedAll stops (i + 1) ts

end

variable {stops : Kind → Bool} {a : List Nat} {t : Tree}

theorem visitedAll_eq (i : Nat) (ts : List Tree) : visitedAll stops i ts
    = (ts.zipIdx i).flatMap fun e ↦ (e.1.visited stops).map (e.2 :: ·) := by
  induction ts generalizing i with
  | nil => rfl
  | cons t ts ih => rw [visitedAll, ih, List.zipIdx_cons, List.flatMap_cons]

theorem visited_eq (t : Tree) : t.visited stops = [] :: if stops t.kind then [] else
    t.children.zipIdx.flatMap fun e ↦ (e.1.visited stops).map (e.2 :: ·) := by
  cases t with
  | node k r s cs => rw [visited, visitedAll_eq, kind, children]

/-- Is there none of the kinds above an address? -/
def IsOpen (stops : Kind → Bool) (t : Tree) (a : List Nat) : Prop :=
  ∀ b, b <+: a → b ≠ a → ∀ n, t.at? b = some n → stops n.kind = false

theorem isOpen_nil : t.IsOpen stops [] := fun _ hb hne ↦ absurd (List.prefix_nil.mp hb) hne

theorem isOpen_cons {i : Nat} : t.IsOpen stops (i :: a)
    ↔ stops t.kind = false ∧ ∀ c, t.children[i]? = some c → c.IsOpen stops a := by
  constructor
  · intro h
    refine ⟨h [] List.nil_prefix (List.cons_ne_nil _ _).symm t rfl, fun c hc b hb hne n hn ↦ ?_⟩
    exact h (i :: b) (List.cons_prefix_cons.mpr ⟨rfl, hb⟩) (fun heq ↦ hne (List.cons.inj heq).2) n
      (at?_cons_eq_some.mpr ⟨c, hc, hn⟩)
  · rintro ⟨hkind, hbelow⟩ b hb hne n hn
    cases b with
    | nil => exact Option.some.inj hn ▸ hkind
    | cons j b =>
      obtain ⟨rfl, hprefix⟩ := List.cons_prefix_cons.mp hb
      obtain ⟨c, hc, hn⟩ := at?_cons_eq_some.mp hn
      exact hbelow c hc b hprefix (fun heq ↦ hne (congrArg _ heq)) n hn

/-- **A walk comes by** everything that is not below a node where it stops. -/
theorem mem_visited : a ∈ t.visited stops ↔ (∃ n, t.at? a = some n) ∧ t.IsOpen stops a := by
  induction t using induct generalizing a with
  | node k r s cs ih =>
    rw [visited_eq, List.mem_cons]
    cases a with
    | nil =>
      exact iff_of_true (Or.inl rfl) ⟨⟨_, rfl⟩, isOpen_nil⟩
    | cons i a =>
      rw [or_iff_right (List.cons_ne_nil _ _), isOpen_cons, kind, children]
      split
      · rename_i hstops
        refine iff_of_false List.not_mem_nil fun ⟨_, hkind, _⟩ ↦ ?_
        exact Bool.false_ne_true (hkind.symm.trans hstops)
      · rename_i hstops
        rw [Bool.not_eq_true] at hstops
        rw [List.mem_flatMap]
        constructor
        · rintro ⟨⟨c, j⟩, hmem, hvisited⟩
          rw [List.mem_zipIdx_iff_getElem?] at hmem
          obtain ⟨a', ha', heq⟩ := List.mem_map.mp hvisited
          obtain ⟨rfl, rfl⟩ := List.cons.inj heq
          obtain ⟨⟨n, hn⟩, hopen⟩ := (ih c (List.mem_of_getElem? hmem)).mp ha'
          refine ⟨⟨n, at?_cons_eq_some.mpr ⟨c, hmem, hn⟩⟩, hstops, fun c' hc' ↦ ?_⟩
          exact Option.some.inj (hmem.symm.trans hc') ▸ hopen
        · rintro ⟨⟨n, hn⟩, -, hbelow⟩
          obtain ⟨c, hc, hn⟩ := at?_cons_eq_some.mp hn
          refine ⟨(c, i), List.mem_zipIdx_iff_getElem?.mpr hc, List.mem_map_of_mem ?_⟩
          exact (ih c (List.mem_of_getElem? hc)).mpr ⟨⟨n, hn⟩, hbelow c hc⟩

/-- **A walk ascends** in the order of addresses. -/
theorem pairwise_visited : (t.visited stops).Pairwise (· < ·) := by
  induction t using induct with
  | node k r s cs ih =>
    rw [visited_eq, List.pairwise_cons, kind, children]
    split
    · exact ⟨fun a ha ↦ absurd ha List.not_mem_nil, List.Pairwise.nil⟩
    · refine ⟨fun a ha ↦ ?_, List.pairwise_flatMap.mpr ⟨fun e he ↦ ?_, ?_⟩⟩
      · obtain ⟨e, -, hvisited⟩ := List.mem_flatMap.mp ha
        obtain ⟨a, -, rfl⟩ := List.mem_map.mp hvisited
        exact List.nil_lt_cons _ _
      · rw [List.pairwise_map]
        refine (ih e.1 (List.fst_mem_of_mem_zipIdx he)).imp fun hlt ↦ ?_
        exact List.cons_lt_cons_iff.mpr (Or.inr ⟨rfl, hlt⟩)
      · have hnumbers : cs.zipIdx.Pairwise fun e e' ↦ e.2 < e'.2 := by
          rw [← List.pairwise_map (f := Prod.snd) (R := (· < ·)), List.zipIdx_map_snd]
          exact List.pairwise_lt_range'
        refine hnumbers.imp fun hlt x hx y hy ↦ ?_
        obtain ⟨x, -, rfl⟩ := List.mem_map.mp hx
        obtain ⟨y, -, rfl⟩ := List.mem_map.mp hy
        exact List.cons_lt_cons_iff.mpr (Or.inl hlt)

/-! ## What is found on a walk -/

/-- What a walk finds at the nodes that it comes by: at the root first, and then below. -/
theorem filterMap_visited {α : Type} (find : Tree → Option α) (t : Tree) :
    (t.visited stops).filterMap (fun a ↦ (t.at? a).bind find) = (find t).toList ++
      if stops t.kind then [] else
        t.children.flatMap fun c ↦ (c.visited stops).filterMap fun a ↦ (c.at? a).bind find := by
  rw [visited_eq, List.filterMap_cons, at?, Option.bind_some]
  have hbelow : (if stops t.kind then [] else t.children.zipIdx.flatMap fun e ↦
        (e.1.visited stops).map (e.2 :: ·)).filterMap (fun a ↦ (t.at? a).bind find)
      = if stops t.kind then [] else
        t.children.flatMap fun c ↦ (c.visited stops).filterMap fun a ↦ (c.at? a).bind find := by
    split
    · rfl
    · have hfst : t.children = t.children.zipIdx.map Prod.fst := (List.zipIdx_map_fst 0 _).symm
      rw [List.filterMap_flatMap]
      conv_rhs => rw [hfst, List.flatMap_map]
      refine List.flatMap_congr fun e he ↦ ?_
      rw [List.filterMap_map]
      refine List.filterMap_congr fun a _ ↦ ?_
      rw [Function.comp_apply, at?_cons (List.mem_zipIdx_iff_getElem?.mp he)]
  rw [hbelow]
  cases find t <;> rfl

/-- The nodes that a walk comes by, with their addresses and a part of each that has one. -/
def taken (stops : Kind → Bool) (part : List Nat → Tree → Option Tree) (t : Tree) :
    List (List Nat × Tree × Tree) :=
  (t.visited stops).filterMap fun a ↦ (t.at? a).bind fun n ↦ (part a n).map fun p ↦ (a, n, p)

variable {part : List Nat → Tree → Option Tree} {n p : Tree}

theorem mem_taken : (a, n, p) ∈ t.taken stops part
    ↔ t.at? a = some n ∧ t.IsOpen stops a ∧ part a n = some p := by
  rw [taken, List.mem_filterMap]
  simp only [Option.bind_eq_some_iff, Option.map_eq_some_iff, Prod.mk.injEq, mem_visited]
  constructor
  · rintro ⟨_, ⟨_, hopen⟩, _, hn, _, hp, rfl, rfl, rfl⟩
    exact ⟨hn, hopen, hp⟩
  · rintro ⟨hn, hopen, hp⟩
    exact ⟨a, ⟨⟨n, hn⟩, hopen⟩, n, hn, p, hp, rfl, rfl, rfl⟩

theorem pairwise_taken : (t.taken stops part).Pairwise fun x y ↦ x.1 < y.1 := by
  refine pairwise_visited.filterMap _ fun a a' hlt x hx y hy ↦ ?_
  simp only [Option.bind_eq_some_iff, Option.map_eq_some_iff] at hx hy
  obtain ⟨_, _, _, _, rfl⟩ := hx
  obtain ⟨_, _, _, _, rfl⟩ := hy
  exact hlt

end CodeAtlas.Syntax.Tree
