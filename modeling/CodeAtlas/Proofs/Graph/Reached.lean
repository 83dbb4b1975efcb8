import CodeAtlas.Proofs.Graph.Textual
import CodeAtlas.Proofs.Program.Interleaving

/-!
# Graphs that are reached

What indexing adds to a graph is made of texts: names, paths and clauses. Whatever requests of this
sort an empty store has answered, and in whatever order, its graph is a graph of texts. Lookups and
deletions may be about anything.
-/

namespace CodeAtlas

/-- The state after a list of requests has been answered. -/
def Responder.after {σ : Type} (respond : Responder σ) (history : List Request) (s : σ) : σ :=
  history.foldl (fun s r ↦ (respond r s).2) s

namespace Program.Interleaves

variable {α σ : Type} {respond : Responder σ} {ps : List (Program α)} {s t : σ} {rs : List Request}
  {xs : List (Except Fault α)}

/-- Programs that take turns leave the state that their requests leave. -/
theorem eq_after (h : Interleaves respond ps s rs xs t) : t = respond.after rs s := by
  induction h with
  | ended xs s => rfl
  | turn before after h ih => exact ih

/-- They make no requests but those that each of them can make. -/
theorem forall_of_asks {P : Request → Prop} {Q : α → Prop} (h : Interleaves respond ps s rs xs t)
    (hasks : ∀ p ∈ ps, p.Asks P (fun _ _ ↦ True) Q) : ∀ r ∈ rs, P r := by
  induction h with
  | ended xs s => exact fun r hr ↦ absurd hr List.not_mem_nil
  | turn before after h ih =>
    rw [List.forall_mem_append, List.forall_mem_cons] at hasks
    obtain ⟨hbefore, hturn, hafter⟩ := hasks
    rw [List.forall_mem_cons]
    refine ⟨hturn.1, ih ?_⟩
    rw [List.forall_mem_append, List.forall_mem_cons]
    exact ⟨hbefore, hturn.2 _ trivial, hafter⟩

end Program.Interleaves

namespace Request

/-- What the request adds to the graph, if anything, is made of texts. -/
def IsTextual : Request → Prop
  | mergeNode _ key => ∀ e ∈ key, e.2.IsText
  | mergeRelationship _ _ fromKey _ toKey attrs =>
    (∀ e ∈ fromKey, e.2.IsText) ∧ (∀ e ∈ toKey, e.2.IsText) ∧ ∀ e ∈ attrs.getD [], e.2.IsText
  | _ => True

end Request

variable {digest digest' : Digest}

theorem Graph.Textual.answers {g h : Graph} (hg : g.Textual digest) {r : Request}
    (hr : r.IsTextual) {x : Except Fault r.Reply} (hx : Graph.Answers digest r g x h) :
    h.Textual digest := by
  have hscalar : ∀ {ps : Props}, (∀ e ∈ ps, e.2.IsText) → ∀ e ∈ ps, e.2.IsScalar :=
    fun hps e he ↦ (hps e he).isScalar
  cases r with
  | mergeNode label key =>
    rw [Graph.Answers, Graph.answer?, if_pos (Graph.isWritable_map_of_scalar (hscalar hr))] at hx
    rw [hx.2]
    exact hg.mergeNode hr
  | mergeRelationship type fromLabel fromKey toLabel toKey attrs =>
    obtain ⟨hfrom, hto, hattrs⟩ := hr
    rw [Graph.Answers, Graph.answer?_mergeRelationship digest g type fromLabel toLabel attrs
      (hscalar hfrom) (hscalar hto) (hscalar hattrs)] at hx
    rw [hx.2]
    exact hg.mergeRelationship hfrom hto hattrs
  | findRelationships type fromLabel fromKey attrs =>
    rw [Graph.Answers, Graph.answer?] at hx
    by_cases hwritable : Json.isWritable (.map fromKey)
    · rw [if_pos hwritable] at hx
      exact hx.2 ▸ hg
    · rw [if_neg hwritable] at hx
      exact hx.2 ▸ hg
  | deleteRelationship type fromLabel fromKey toLabel toKey attrs =>
    rw [Graph.Answers, Graph.answer?] at hx
    by_cases hwritable : Json.isWritable (.map fromKey) && Json.isWritable (.map toKey)
    · rw [if_pos hwritable] at hx
      exact hx.2 ▸ hg.without _
    · rw [if_neg hwritable] at hx
      exact hx.2 ▸ hg
  | _ =>
    obtain rfl := hx.2
    exact hg

/-- What every request of a history preserves holds after all of them. -/
theorem Serves.exists_after {σ : Type} {store : σ → Store} {respond : Responder σ}
    (hserves : Serves digest store respond) {Inv : Graph → Prop} {history : List Request}
    (hstep : ∀ r ∈ history, ∀ g x h, Inv g → Graph.Answers digest' r g x h → Inv h)
    (hagree : ∀ r ∈ history, ∀ t ∈ r.hashed digest, digest t = digest' t) {s : σ} {g : Graph}
    (hs : (store s).Holds g) (hg : Inv g) :
    ∃ h, (store (respond.after history s)).Holds h ∧ Inv h := by
  induction history generalizing s g with
  | nil => exact ⟨g, hs, hg⟩
  | cons r history ih =>
    rw [List.forall_mem_cons] at hstep hagree
    obtain ⟨h, hh, hanswer⟩ := hserves.answers hagree.1 hs
    exact ih hstep.2 hagree.2 hh (hstep.1 g _ h hg hanswer)

/-- **What is reached** from an empty store by requests about texts is a graph of texts. -/
theorem Serves.exists_textual_after {σ : Type} {store : σ → Store} {respond : Responder σ}
    (hserves : Serves digest store respond) {s : σ} (hs : (store s).Holds .empty)
    {history : List Request} (hhistory : ∀ r ∈ history, r.IsTextual)
    (hagree : ∀ r ∈ history, ∀ t ∈ r.hashed digest, digest t = digest' t) :
    ∃ g, (store (respond.after history s)).Holds g ∧ g.Textual digest' :=
  hserves.exists_after (fun r hr _ _ _ hg hx ↦ hg.answers (hhistory r hr) hx) hagree hs
    Graph.consistent_empty

end CodeAtlas
