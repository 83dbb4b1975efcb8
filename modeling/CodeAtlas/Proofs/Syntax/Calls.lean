import CodeAtlas.Proofs.Syntax.Declarations

/-!
# The names that are called in a body

Calls are collected by a walk that stops nowhere, so it comes by every node of a body, whatever
function, class or other call that is in (`mem_calls`). An outer call comes before the calls in its
callee and in its arguments, since its address is a beginning of theirs. What is kept of the calls
is the name that each calls, once and where it is first met (`calledNames_callNames`).

How deep a body may be is not settled here: a source that is too deep for a walk has no outline.
-/

namespace CodeAtlas.Syntax

namespace Tree

/-! ## Calls of plain names -/

variable {n callee : Tree} {a : List Nat} {t : Tree}

theorem callee?_eq_some_iff : callee? n = some callee
    ↔ n.kind = .call ∧ n.child? .callee = some callee ∧ callee.kind = .identifier := by
  rw [callee?]
  cases n.child? .callee with
  | none => simp
  | some c =>
    simp only [Option.ite_none_right_eq_some, beq_iff_eq, Option.some.injEq]
    constructor
    · rintro ⟨hcall, hname, rfl⟩
      exact ⟨hcall, rfl, hname⟩
    · rintro ⟨hcall, rfl, hname⟩
      exact ⟨hcall, hname, rfl⟩

theorem calleesAll_eq (ts : List Tree) : calleesAll ts = ts.flatMap callees := by
  induction ts with
  | nil => rfl
  | cons t ts ih => rw [calleesAll, ih, List.flatMap_cons]

/-- The kinds at which the walk for calls stops: none. -/
def stopless (_ : Kind) : Bool := false

theorem isOpen_of_stopless : t.IsOpen stopless a := fun _ _ _ _ _ ↦ rfl

/-- **The names called in a tree** are those of the calls that the walk comes by. -/
theorem callees_eq (t : Tree) :
    t.callees = (t.visited stopless).filterMap fun a ↦ (t.at? a).bind callee? := by
  induction t using induct with
  | node k r s cs ih =>
    rw [filterMap_visited, callees, calleesAll_eq, stopless, if_neg Bool.false_ne_true, children]
    congr 1
    exact List.flatMap_congr ih

/-- The calls of plain names in a tree, with their addresses and the names. -/
def calls (t : Tree) : List (List Nat × Tree × Tree) := t.taken stopless fun _ ↦ callee?

theorem mem_calls : (a, n, callee) ∈ t.calls ↔ t.at? a = some n ∧ n.kind = .call ∧
    n.child? .callee = some callee ∧ callee.kind = .identifier := by
  rw [calls, mem_taken, callee?_eq_some_iff, and_iff_right isOpen_of_stopless]

theorem callees_eq_map_calls (t : Tree) : t.callees = t.calls.map fun (_, _, callee) ↦ callee := by
  rw [callees_eq, calls, taken, List.map_filterMap]
  refine List.filterMap_congr fun a _ ↦ ?_
  cases t.at? a with
  | none => rfl
  | some n =>
    rw [Option.bind_some, Option.bind_some, Option.map_map]
    exact (congrFun Option.map_id _).symm

end Tree

/-! ## Collected names -/

namespace Outline

/-- What names are called in a body. The calls have addresses, which ascend: that is text order,
with an outer call before those inside it. -/
structure CalledNames (text : Tree → String) (body : Tree) (names : List String) : Prop where
  nodup : names.Nodup
  /-- The names are the first occurrences of those in all calls of plain names, however deep. -/
  calls : ∃ found : List (List Nat × Tree × Tree),
    found.Pairwise (fun x y ↦ x.1 < y.1) ∧
    (∀ a n callee, (a, n, callee) ∈ found ↔ body.at? a = some n ∧ n.kind = .call ∧
      n.child? .callee = some callee ∧ callee.kind = .identifier) ∧
    names = (found.map fun (_, _, callee) ↦ text callee).eraseDups

/-- **The names called in a body** are collected from every call in it. -/
theorem calledNames_callNames (text : Tree → String) (body : Tree) :
    CalledNames text body (callNames text body) := by
  refine ⟨nodup_distinct _, body.calls, Tree.pairwise_taken, fun _ _ _ ↦ Tree.mem_calls, ?_⟩
  rw [callNames, distinct_eq_eraseDups, Tree.callees_eq_map_calls, List.map_map]
  rfl

/-- A call of a plain name, with arguments. -/
def callOf (start : Nat) (arguments : List Tree) : Tree :=
  .node .call none ⟨start, start + 1⟩
    [leaf .identifier (some .callee) start (start + 1),
      .node .arguments none ⟨start, start + 1⟩ arguments]

/-- The body `f(g(f())); class { m() { h()() } }`, as far as calls are concerned. -/
example : callNames (textOf ⟨"f g f h".toList.toArray, .typescript⟩)
    (.node .block none ⟨0, 7⟩ [callOf 0 [callOf 2 [callOf 4 []]],
      .node .classBody none ⟨6, 7⟩ [.node .call none ⟨6, 7⟩
        [.node .call (some .callee) ⟨6, 7⟩ [leaf .identifier (some .callee) 6 7]]]])
    = ["f", "g", "h"] := by
  decide +kernel

end Outline

end CodeAtlas.Syntax
