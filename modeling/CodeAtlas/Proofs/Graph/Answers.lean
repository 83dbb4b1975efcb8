import CodeAtlas.Graph.Store
import CodeAtlas.Proofs.Graph.Ids
import CodeAtlas.Proofs.Program.Ends
import CodeAtlas.Rehearsal.Respond

/-!
# What a graph answers

The store in a document answers the requests about the graph. As long as its document has the shape
of a graph, the answer depends on that graph alone, and so does the graph afterwards: this is
`Graph.answer?`. The other requests go to the record store, the queue and the log, of which nothing
is known but that they answer; they leave the graph alone.

What a program does to a graph can therefore be found out by rewriting with `Program.Ends` and
`Graph.Answers`, and it holds for every responder that `Serves` the store, the rehearsal among them.

## Two digests

The proofs take ids apart and want an injective digest. The responder has another one. The texts
that a request hashes are `Request.hashed`, and an answer does not change if the digest is replaced
by one that agrees on them; for the texts of a run there is an injective one.
-/

namespace CodeAtlas

/-! ## The answers of a store -/

namespace Store

/-- Goes on with a changed store, or with this one if the change failed. -/
def changed {α : Type} (s : Store) : Except Fault (Store × α) → Except Fault α × Store
  | .ok (s, a) => (.ok a, s)
  | .error e => (.error e, s)

/-- The answer to a request about the graph, and the store afterwards. -/
def answer? (digest : Digest) (r : Request) (s : Store) : Option (Except Fault r.Reply × Store) :=
  match r with
  | .mergeNode label key => some (s.changed (s.mergeNode digest label key))
  | .mergeRelationship type fromLabel fromKey toLabel toKey attrs =>
    some (s.mergeRelationship digest type fromLabel fromKey toLabel toKey (attrs.getD []))
  | .findRelationships type fromLabel fromKey attrs =>
    some (s.findRelationships digest type fromLabel fromKey (attrs.getD []), s)
  | .deleteRelationship type fromLabel fromKey toLabel toKey attrs =>
    some (s.changed
      (s.deleteRelationship digest type fromLabel fromKey toLabel toKey (attrs.getD [])))
  | .expandCalls id => some (s.expandCalls id, s)
  | .graphStats => some (s.stats, s)
  | _ => none

/-- The document has the shape of the graph. -/
def Holds (s : Store) (g : Graph) : Prop := ∃ metadata, s.content = .graph g metadata

theorem holds_empty : Store.empty.Holds .empty := ⟨_, rfl⟩

theorem Holds.unique {s : Store} {g h : Graph} (hg : s.Holds g) (hh : s.Holds h) : g = h := by
  obtain ⟨m, hm⟩ := hg
  obtain ⟨n, hn⟩ := hh
  rw [hm, Content.graph.injEq] at hn
  exact hn.1

/-- What a look at the graph finds, it finds in the graph that the document has the shape of. -/
theorem exists_holds_of_look {s : Store} {onGraph : Graph → Except Fault Bool}
    (h : (s.look onGraph fun _ ↦ .ok false).toOption = some true) :
    ∃ g, s.Holds g ∧ (onGraph g).toOption = some true := by
  obtain ⟨content, dirty⟩ := s
  cases content with
  | graph g m => exact ⟨g, ⟨m, rfl⟩, h⟩
  | damaged d => exact absurd h (by simp [look, Except.toOption])

end Store

namespace Request

/-- What is known of the answer to a request that is not about the graph. A record store may fail to
find out whether it has a record; the queue and the log do not fail. -/
def Expected : (r : Request) → Except Fault r.Reply → Prop
  | hasRecord _, x => (∃ found, x = .ok found) ∨ ∃ m c, x = .error (.storage m c)
  | offer .., x => ∃ verdict, x = .ok verdict
  | queueStats, x => ∃ stats, x = .ok stats
  | note _, x => x = .ok ()
  | _, _ => True

/-- The texts that are hashed to answer a request. -/
def hashed (digest : Digest) : Request → List String
  | mergeNode label key => [Graph.nodeText label key]
  | mergeRelationship type fromLabel fromKey toLabel toKey attrs =>
    [Graph.nodeText fromLabel fromKey, Graph.nodeText toLabel toKey,
      Graph.relationshipText type (Graph.nodeId digest fromLabel fromKey)
        (Graph.nodeId digest toLabel toKey) (attrs.getD [])]
  | findRelationships _ fromLabel fromKey _ => [Graph.nodeText fromLabel fromKey]
  | deleteRelationship _ fromLabel fromKey toLabel toKey _ =>
    [Graph.nodeText fromLabel fromKey, Graph.nodeText toLabel toKey]
  | _ => []

end Request

/-- Requests about the graph are answered by the store, and the others as expected. -/
structure Serves {σ : Type} (digest : Digest) (store : σ → Store) (respond : Responder σ) : Prop where
  graph : ∀ r s x t, (store s).answer? digest r = some (x, t) →
    (respond r s).1 = x ∧ store (respond r s).2 = t
  aside : ∀ r s, (store s).answer? digest r = none →
    r.Expected (respond r s).1 ∧ ∀ g, (store s).Holds g → (store (respond r s).2).Holds g

namespace Graph

open Json (isWritable)

/-! ## The answers of a graph -/

/-- The answer to a request, and the graph afterwards, if it is a request about the graph. -/
def answer? (digest : Digest) (r : Request) (g : Graph) : Option (Except Fault r.Reply × Graph) :=
  match r with
  | .mergeNode label key =>
    some (if isWritable (.map key) then
        (.ok (nodeId digest label key), g.mergeNode digest label key)
      else (.error noWrittenForm, g))
  | .mergeRelationship type fromLabel fromKey toLabel toKey attrs =>
    some (if isWritable (.map fromKey) then
        if isWritable (.map toKey) then
          if isWritable (.map (attrs.getD [])) then
            (.ok (keyRelationship digest type fromLabel fromKey toLabel toKey (attrs.getD [])).id,
              g.mergeRelationship digest type fromLabel fromKey toLabel toKey (attrs.getD []))
          else (.error noWrittenForm,
            (g.mergeNode digest fromLabel fromKey).mergeNode digest toLabel toKey)
        else (.error noWrittenForm, g.mergeNode digest fromLabel fromKey)
      else (.error noWrittenForm, g))
  | .findRelationships type fromLabel fromKey attrs =>
    some (if isWritable (.map fromKey) then
        (g.findRelationships digest type fromLabel fromKey (attrs.getD []), g)
      else (.error noWrittenForm, g))
  | .deleteRelationship type fromLabel fromKey toLabel toKey attrs =>
    some (if isWritable (.map fromKey) && isWritable (.map toKey) then
        let (h, n) := g.deleteRelationship digest type fromLabel fromKey toLabel toKey (attrs.getD [])
        (.ok n, h)
      else (.error noWrittenForm, g))
  | .expandCalls id => some (g.expandCalls id, g)
  | .graphStats => some (.ok g.stats, g)
  | _ => none

/-- The answers that a request may get. -/
def Answers (digest : Digest) : Answering Graph := fun r g x h ↦
  match g.answer? digest r with
  | some (y, k) => x = y ∧ h = k
  | none => r.Expected x ∧ h = g

private theorem checkWritable_one (p : Props) : checkWritable [p]
    = if isWritable (.map p) then .ok () else .error noWrittenForm := by
  rw [checkWritable, List.all_cons, List.all_nil, Bool.and_true]

private theorem checkWritable_two (p q : Props) : checkWritable [p, q]
    = if isWritable (.map p) && isWritable (.map q) then .ok () else .error noWrittenForm := by
  rw [checkWritable, List.all_cons, List.all_cons, List.all_nil, Bool.and_true]

private theorem withNode_graph {digest : Digest} {label : String} {key : Props} {g : Graph}
    {m : Option Datum} {dirty : Bool} :
    (⟨.graph g m, dirty⟩ : Store).withNode digest label key = if isWritable (.map key) then
      .ok ⟨.graph (g.mergeNode digest label key) m, dirty⟩ else .error noWrittenForm := by
  rw [Store.withNode, checkWritable_one]
  split <;> rfl

private theorem mergeRelationship_graph {digest : Digest} {type fromLabel toLabel : String}
    {fromKey toKey attrs : Props} {g : Graph} {m : Option Datum} {dirty : Bool} :
    (⟨.graph g m, dirty⟩ : Store).mergeRelationship digest type fromLabel fromKey toLabel toKey attrs
      = if isWritable (.map fromKey) then
          if isWritable (.map toKey) then
            if isWritable (.map attrs) then
              (.ok (keyRelationship digest type fromLabel fromKey toLabel toKey attrs).id,
                ⟨.graph (g.mergeRelationship digest type fromLabel fromKey toLabel toKey attrs) m,
                  true⟩)
            else (.error noWrittenForm, ⟨.graph ((g.mergeNode digest fromLabel fromKey).mergeNode
              digest toLabel toKey) m, dirty⟩)
          else (.error noWrittenForm, ⟨.graph (g.mergeNode digest fromLabel fromKey) m, dirty⟩)
        else (.error noWrittenForm, ⟨.graph g m, dirty⟩) := by
  simp only [Store.mergeRelationship, withNode_graph]
  by_cases hfrom : isWritable (.map fromKey)
  · by_cases hto : isWritable (.map toKey)
    · rw [if_pos hfrom, if_pos hfrom, if_pos hto]
      simp only [withNode_graph, if_pos hto, checkWritable_one]
      by_cases hattrs : isWritable (.map attrs)
      · rw [if_pos hattrs, if_pos hattrs]
        rfl
      · rw [if_neg hattrs, if_neg hattrs]
        rfl
    · rw [if_pos hfrom, if_pos hfrom, if_neg hto]
      simp only [withNode_graph, if_neg hto]
  · rw [if_neg hfrom, if_neg hfrom]

/-- A store answers as its graph does. -/
theorem answer?_store (digest : Digest) {s : Store} {g : Graph} (hs : s.Holds g) (r : Request) :
    match g.answer? digest r with
    | some (x, h) => ∃ t, s.answer? digest r = some (x, t) ∧ t.Holds h
    | none => s.answer? digest r = none := by
  obtain ⟨m, hm⟩ := hs
  obtain ⟨content, dirty⟩ := s
  obtain rfl : content = .graph g m := hm
  have hself : (⟨.graph g m, dirty⟩ : Store).Holds g := ⟨m, rfl⟩
  cases r with
  | mergeNode label key =>
    simp only [answer?, Store.answer?, Store.mergeNode, checkWritable_one]
    split
    · exact ⟨_, rfl, m, rfl⟩
    · exact ⟨_, rfl, hself⟩
  | mergeRelationship type fromLabel fromKey toLabel toKey attrs =>
    simp only [answer?, Store.answer?, mergeRelationship_graph]
    split_ifs
    · exact ⟨_, rfl, m, rfl⟩
    · exact ⟨_, rfl, m, rfl⟩
    · exact ⟨_, rfl, m, rfl⟩
    · exact ⟨_, rfl, hself⟩
  | findRelationships type fromLabel fromKey attrs =>
    simp only [answer?, Store.answer?, Store.findRelationships, checkWritable_one]
    split
    · exact ⟨_, rfl, hself⟩
    · exact ⟨_, rfl, hself⟩
  | deleteRelationship type fromLabel fromKey toLabel toKey attrs =>
    simp only [answer?, Store.answer?, Store.deleteRelationship, checkWritable_two]
    split
    · exact ⟨_, rfl, m, rfl⟩
    · exact ⟨_, rfl, hself⟩
  | expandCalls id => exact ⟨_, rfl, hself⟩
  | graphStats => exact ⟨_, rfl, hself⟩
  | _ => rfl

/-- The digest matters only where a request hashes something. -/
theorem answer?_congr {digest digest' : Digest} {r : Request}
    (h : ∀ t ∈ r.hashed digest, digest t = digest' t) (g : Graph) :
    g.answer? digest r = g.answer? digest' r := by
  have hnode : ∀ label key, nodeText label key ∈ r.hashed digest →
      nodeId digest label key = nodeId digest' label key := fun label key hmem ↦ h _ hmem
  cases r with
  | mergeNode label key =>
    have hkey := hnode label key (by simp [Request.hashed])
    simp only [answer?, mergeNode, keyNode, hkey]
  | mergeRelationship type fromLabel fromKey toLabel toKey attrs =>
    have hfrom := hnode fromLabel fromKey (by simp [Request.hashed])
    have hto := hnode toLabel toKey (by simp [Request.hashed])
    have hrel : relationshipId digest type (nodeId digest' fromLabel fromKey)
        (nodeId digest' toLabel toKey) (attrs.getD []) = relationshipId digest' type
        (nodeId digest' fromLabel fromKey) (nodeId digest' toLabel toKey) (attrs.getD []) := by
      refine h _ ?_
      rw [Request.hashed, hfrom, hto]
      exact List.mem_cons_of_mem _ (List.mem_cons_of_mem _ List.mem_cons_self)
    simp only [answer?, mergeRelationship, mergeNode, keyNode, keyRelationship, hfrom, hto, hrel]
  | findRelationships type fromLabel fromKey attrs =>
    have hfrom := hnode fromLabel fromKey (by simp [Request.hashed])
    simp only [answer?, findRelationships, hfrom]
  | deleteRelationship type fromLabel fromKey toLabel toKey attrs =>
    have hfrom := hnode fromLabel fromKey (by simp [Request.hashed])
    have hto := hnode toLabel toKey (by simp [Request.hashed])
    simp only [answer?, deleteRelationship, hfrom, hto]
  | _ => rfl

/-! ## Settled answers -/

variable {digest : Digest} {g h : Graph} {r : Request}

theorem only_answer {x : Except Fault r.Reply} (hx : g.answer? digest r = some (x, h)) :
    (Answers digest).Only r g x h := by
  intro y k hy
  rwa [Answers, hx] at hy

theorem only_note {n : Notice} : (Answers digest).Only (.note n) g (.ok ()) g := fun _ _ hy ↦ hy

theorem isWritable_of_scalar {d : Datum} (hd : d.IsScalar) : isWritable d = true := by
  cases d with
  | float | date | list | map => exact hd.elim
  | _ => rfl

theorem isWritable_map_of_scalar {ps : Props} (hps : ∀ e ∈ ps, e.2.IsScalar) :
    isWritable (.map ps) = true := by
  rw [isWritable]
  induction ps with
  | nil => rfl
  | cons e ps ih =>
    rw [List.forall_mem_cons] at hps
    rw [Json.entriesWritable, isWritable_of_scalar hps.1, ih hps.2, Bool.and_self]

end Graph

/-! ## Runs against a store -/

namespace Serves

variable {σ : Type} {digest digest' : Digest} {store : σ → Store} {respond : Responder σ}

/-- What serves the store gives the answers that a graph gives. -/
theorem answers (h : Serves digest store respond) {r : Request}
    (hagree : ∀ t ∈ r.hashed digest, digest t = digest' t) {s : σ} {g : Graph}
    (hs : (store s).Holds g) :
    ∃ g', (store (respond r s).2).Holds g' ∧ Graph.Answers digest' r g (respond r s).1 g' := by
  have hstore := Graph.answer?_store digest hs r
  rw [Graph.answer?_congr hagree] at hstore
  cases heq : g.answer? digest' r with
  | some answer =>
    obtain ⟨x, g'⟩ := answer
    rw [heq] at hstore
    obtain ⟨t, hanswer, ht⟩ := hstore
    obtain ⟨hx, ht'⟩ := h.graph r s x t hanswer
    refine ⟨g', ht' ▸ ht, ?_⟩
    simp only [Graph.Answers, heq]
    exact ⟨hx, trivial⟩
  | none =>
    rw [heq] at hstore
    obtain ⟨hx, hholds⟩ := h.aside r s hstore
    refine ⟨g, hholds g hs, ?_⟩
    simp only [Graph.Answers, heq]
    exact ⟨hx, trivial⟩

/-- Runs against a store end as programs over its graph do. -/
theorem run {α : Type} (h : Serves digest store respond) {p : Program α} {s : σ}
    (hagree : ∀ r ∈ p.trace respond s, ∀ t ∈ r.hashed digest, digest t = digest' t) {g : Graph}
    (hs : (store s).Holds g) {Q : Except Fault α → Graph → Prop}
    (hp : p.Ends (Graph.Answers digest') Q g) :
    ∃ g', (store (p.run respond s).2).Holds g' ∧ Q (p.run respond s).1 g' :=
  Program.Ends.run (fun s g ↦ (store s).Holds g) hp hs
    fun r hr _ _ hs ↦ h.answers (hagree r hr) hs

/-- What every program of a list preserves, given those that have ended, holds after all of them. -/
theorem runAll {ι α : Type} (h : Serves digest store respond) (program : ι → Program α)
    (Inv : List ι → Graph → Prop) (past xs : List ι)
    (hstep : ∀ past, ∀ i ∈ xs, ∀ g, Inv past g →
      (program i).Ends (Graph.Answers digest') (fun _ h ↦ Inv (past ++ [i]) h) g)
    {s : σ} (hagree : ∀ r ∈ Program.traceAll respond (xs.map program) s,
      ∀ t ∈ r.hashed digest, digest t = digest' t)
    {g : Graph} (hs : (store s).Holds g) (hg : Inv past g) :
    ∃ g', (store (Program.runAll respond (xs.map program) s).2).Holds g' ∧ Inv (past ++ xs) g' := by
  induction xs generalizing s past g with
  | nil => exact ⟨g, hs, (List.append_nil past).symm ▸ hg⟩
  | cons i xs ih =>
    rw [List.map_cons, Program.traceAll] at hagree
    obtain ⟨g', hs', hg'⟩ := h.run (fun r hr ↦ hagree r (List.mem_append_left _ hr)) hs
      (hstep past i List.mem_cons_self g hg)
    obtain ⟨k, hk, hinv⟩ := ih (past ++ [i]) (fun past j hj ↦ hstep past j (List.mem_cons_of_mem _ hj))
      (fun r hr ↦ hagree r (List.mem_append_right _ hr)) hs' hg'
    rw [List.append_assoc, List.singleton_append] at hinv
    exact ⟨k, hk, hinv⟩

end Serves

theorem Store.Holds.save {s t : Store} {g : Graph} (hs : s.Holds g) {now text : String}
    (h : s.save now = .ok (t, text)) : t.Holds g := by
  obtain ⟨m, hm⟩ := hs
  rw [Store.save, hm] at h
  cases m with
  | none => exact absurd h (by simp [Content.stamp, bind, Except.bind])
  | some m =>
    simp only [Content.stamp, bind, Except.bind] at h
    cases hstamped : Content.stamped now m with
    | error e => exact absurd h (by simp [hstamped])
    | ok m' =>
      simp only [hstamped, pure, Except.pure, Except.ok.injEq, Prod.mk.injEq] at h
      exact ⟨some m', h.1 ▸ rfl⟩

theorem Store.Holds.saveThrough {σ : Type} {s : Store} {g : Graph} (hs : s.Holds g) (now : String)
    (write : String → Except String σ) : (s.saveThrough now write).1.Holds g := by
  rw [Store.saveThrough]
  split
  · exact hs
  · rename_i saved text hsave
    have hsaved : saved.Holds g := hs.save hsave
    split
    · exact hsaved
    · exact hsaved

theorem Rehearsal.holds_saveStore {r : Rehearsal} {g : Graph} (hr : r.store.Holds g) :
    r.saveStore.store.Holds g := by
  cases hpath : r.document with
  | none =>
    rw [saveStore_of_none hpath]
    exact hr
  | some path =>
    rw [store_saveStore hpath]
    exact hr.saveThrough _ _

/-- A rehearsal in which nothing is made to fail serves its store. -/
theorem Rehearsal.serves : Serves Text.Digest.ofText Rehearsal.store Rehearsal.serve where
  graph r s x t h := by
    cases r with
    | mergeNode label key =>
      simp only [Store.answer?, Option.some.injEq] at h
      simp only [Rehearsal.serve, Rehearsal.withStore]
      cases hmerge : s.store.mergeNode Text.Digest.ofText label key <;>
        simp_all [Store.changed]
    | deleteRelationship type fromLabel fromKey toLabel toKey attrs =>
      simp only [Store.answer?, Option.some.injEq] at h
      simp only [Rehearsal.serve, Rehearsal.withStore]
      cases hdelete : s.store.deleteRelationship Text.Digest.ofText type fromLabel fromKey toLabel
        toKey (attrs.getD []) <;> simp_all [Store.changed]
    | mergeRelationship | findRelationships | expandCalls | graphStats =>
      have hpair := Option.some.inj h
      exact ⟨congrArg Prod.fst hpair, congrArg Prod.snd hpair⟩
    | _ => exact absurd h (by simp [Store.answer?])
  aside r s h := by
    cases r with
    | mergeNode | deleteRelationship | mergeRelationship | findRelationships | expandCalls
    | graphStats => exact absurd h (by simp [Store.answer?])
    | flushGraph =>
      refine ⟨trivial, fun g hg ↦ ?_⟩
      rw [Rehearsal.serve]
      split
      · exact Rehearsal.holds_saveStore hg
      · exact hg
    | hasRecord id => exact ⟨Or.inl ⟨_, rfl⟩, fun _ hg ↦ hg⟩
    | offer | queueStats => exact ⟨⟨_, rfl⟩, fun _ hg ↦ hg⟩
    | note n => exact ⟨rfl, fun _ hg ↦ hg⟩
    | takeItem =>
      refine ⟨trivial, fun g hg ↦ ?_⟩
      rw [Rehearsal.serve]
      split <;> exact hg
    | _ => exact ⟨trivial, fun _ hg ↦ hg⟩

end CodeAtlas
