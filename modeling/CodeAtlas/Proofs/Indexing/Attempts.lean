import CodeAtlas.Proofs.Indexing.Updates

/-!
# What indexing attempts to write

Programs are worked through here as in `Program.Ends`, but over all patterns of refusals at once:
`Program.Attempts` says which writes a program attempts, with whether they succeeded, and what it
comes to. The graph needs no mention, since it is what these writes make of it.

Bringing the edges of a source up to date reads the graph in two places: it lists the edges after
merging the wanted ones, and it looks up where calls lead. Both find what is in the graph at that
time, whatever was refused before. So what is done is an update in the sense of `IsUpdate`, and the
number that is reported is that of the merges that succeeded.
-/

namespace CodeAtlas

open CodeAtlas.Graph (importsFrom calls fileLabel fileKey functionLabel functionKey fileId functionId)

namespace Program

variable {α β : Type} {digest : Digest} {g : Graph}

/-- Whichever writes are refused, the program changes the graph by those that succeed, and its
outcome and its writes satisfy `Q`. -/
def Attempts (digest : Digest) (Q : Except Fault α → List Write → Prop) (p : Program α)
    (g : Graph) : Prop :=
  ∀ ws, p.Ends (Graph.Answers digest).withRefusals
    (fun x t ↦ ∃ new, t = (g.afterWrites digest new, ws ++ new) ∧ Q x new) (g, ws)

/-- Whichever writes are refused, the program does not fail. -/
abbrev Completes (digest : Digest) (S : α → List Write → Prop) (p : Program α) (g : Graph) : Prop :=
  p.Attempts digest (fun x ws ↦ ∃ a, x = .ok a ∧ S a ws) g

variable {Q R : Except Fault α → List Write → Prop} {S T : α → List Write → Prop} {p : Program α}

theorem Attempts.mono (hp : p.Attempts digest Q g) (hQ : ∀ x ws, Q x ws → R x ws) :
    p.Attempts digest R g := by
  refine fun ws ↦ Ends.mono (hp ws) ?_
  rintro x t ⟨new, ht, hx⟩
  exact ⟨new, ht, hQ x new hx⟩

theorem Completes.mono (hp : p.Completes digest S g) (hS : ∀ a ws, S a ws → T a ws) :
    p.Completes digest T g := by
  refine Attempts.mono hp ?_
  rintro x ws ⟨a, rfl, ha⟩
  exact ⟨a, rfl, hS a ws ha⟩

theorem completes_pure {a : α} (ha : S a []) : (pure a : Program α).Completes digest S g :=
  fun ws ↦ ⟨[], by rw [List.append_nil]; rfl, a, rfl, ha⟩

/-- The second program starts in the graph that the writes of the first one leave. -/
theorem Completes.bind {f : α → Program β} {Q : Except Fault β → List Write → Prop}
    (hp : p.Completes digest S g)
    (hf : ∀ a ws, S a ws →
      (f a).Attempts digest (fun x new ↦ Q x (ws ++ new)) (g.afterWrites digest ws)) :
    (p >>= f).Attempts digest Q g := by
  intro ws
  refine ends_bind.mpr (Ends.mono (hp ws) ?_)
  rintro x t ⟨new, rfl, a, rfl, ha⟩
  refine Ends.mono (hf a new ha (ws ++ new)) ?_
  rintro y t ⟨new', rfl, hy⟩
  exact ⟨new ++ new', by rw [Graph.afterWrites_append, List.append_assoc], hy⟩

theorem Attempts.attempt (hp : p.Attempts digest Q g) : p.attempt.Completes digest Q g := by
  refine fun ws ↦ ends_attempt.mpr (Ends.mono (hp ws) ?_)
  rintro x t ⟨new, ht, hx⟩
  exact ⟨new, ht, x, rfl, hx⟩

/-- A program that writes nothing can be worked through without refusals. -/
theorem Ends.completes {S : α → Prop}
    (hp : p.Ends (Graph.Answers digest) (fun x h ↦ (∃ a, x = .ok a ∧ S a) ∧ h = g) g)
    (hquiet : p.IsQuiet) : p.Completes digest (fun a ws ↦ S a ∧ ws = []) g := by
  -- Nothing is put down, so the list of writes is the one that the program started with.
  refine fun ws ↦ (hp.withRefusals_of_isQuiet hquiet ws).mono ?_
  rintro x ⟨h, ws'⟩ ⟨⟨⟨a, rfl, ha⟩, hh⟩, hws⟩
  obtain rfl : h = g := hh
  obtain rfl : ws' = ws := hws
  exact ⟨[], by rw [List.append_nil]; rfl, a, rfl, ha, rfl⟩

theorem Gives.completes {a : α} (hp : p.Gives (Graph.Answers digest) g (.ok a) g)
    (hquiet : p.IsQuiet) : p.Completes digest (fun b ws ↦ b = a ∧ ws = []) g :=
  (hp.ends ⟨⟨a, rfl, rfl⟩, rfl⟩ : p.Ends (Graph.Answers digest) (fun x h ↦
    (∃ b, x = .ok b ∧ b = a) ∧ h = g) g).completes hquiet

theorem Ends.completes_nil
    (hp : p.Ends (Graph.Answers digest) (fun x h ↦ (∃ a, x = .ok a) ∧ h = g) g)
    (hquiet : p.IsQuiet) : p.Completes digest (fun _ ws ↦ ws = []) g := by
  have hends : p.Ends (Graph.Answers digest) (fun x h ↦ (∃ a, x = .ok a ∧ True) ∧ h = g) g := by
    refine hp.mono ?_
    rintro x h ⟨⟨a, ha⟩, hh⟩
    exact ⟨⟨a, ha, trivial⟩, hh⟩
  exact (hends.completes hquiet).mono fun _ _ h ↦ h.2

/-! ## One write -/

/-- The write was made, or refused. -/
inductive Tried (w : Request) (S : α → Prop) : Except Fault α → List Write → Prop
  | succeeded {a : α} (ha : S a) : Tried w S (.ok a) [⟨w, true⟩]
  | refused (m : String) (c : Option Fault) : Tried w S (.error (.graphWrite m c)) [⟨w, false⟩]

variable {w : Request}

theorem attempts_request (hd : Function.Injective digest) (hg : g.Indexed digest)
    (hw : w.IsCodeWrite) : (request w).Attempts digest (Tried w fun _ ↦ True) g := by
  rintro ws x ⟨h, ws'⟩ ⟨hws, hanswer⟩
  obtain ⟨a, ha⟩ := Graph.exists_answer?_of_isCodeWrite hd hg hw
  rw [Request.writes, if_pos hw.isWrite] at hws
  dsimp only at hws
  rcases hanswer with hanswer | ⟨⟨-, m, c, rfl⟩, hh⟩
  -- The graph itself refuses no write of indexing.
  · rw [Graph.Answers, ha] at hanswer
    obtain ⟨rfl, hh⟩ := hanswer
    exact ⟨[⟨w, true⟩], Prod.ext hh hws, .succeeded trivial⟩
  · exact ⟨[⟨w, false⟩], Prod.ext hh hws, .refused m c⟩

theorem attempts_map_request {f : w.Reply → α} (hd : Function.Injective digest)
    (hg : g.Indexed digest) (hw : w.IsCodeWrite) :
    (f <$> request w).Attempts digest (Tried w fun b ↦ ∃ a, b = f a) g := by
  refine fun ws ↦ ends_map.mpr (Ends.mono (attempts_request hd hg hw ws) ?_)
  rintro x t ⟨new, ht, hx⟩
  refine ⟨new, ht, ?_⟩
  cases hx with
  | succeeded ha => exact .succeeded ⟨_, rfl⟩
  | refused m c => exact .refused m c

theorem completes_note (isError : Bool) (source text : String) :
    (note isError source text).Completes digest (fun _ ws ↦ ws = []) g :=
  ((gives_request Graph.only_note).ends ⟨⟨(), rfl⟩, rfl⟩).completes_nil (isQuiet_request rfl)

/-- A write that is refused is passed over. -/
theorem Attempts.orRefused {S : α → Prop} {message : Fault → String} {substitute : α}
    (hp : p.Attempts digest (Tried w S) g) :
    (Indexing.orRefused p message substitute).Completes digest
      (fun a ws ↦ ∃ b, ws = [⟨w, b⟩] ∧ if b then S a else a = substitute) g := by
  refine hp.attempt.bind fun x ws hx ↦ ?_
  cases hx with
  | succeeded ha => exact completes_pure ⟨true, rfl, ha⟩
  | refused m c =>
    refine (completes_note true _ _).bind ?_
    rintro _ ws rfl
    exact completes_pure ⟨false, rfl, rfl⟩

end Program

namespace Indexing

open Program
open Syntax (Function Import)

variable {digest : Digest} {g : Graph}

section Writes

variable (hd : Function.Injective digest) (hg : g.Indexed digest)

include hd hg

theorem completes_mergeFile (path : String) :
    (mergeFile path).Completes digest (fun _ ws ↦ StaysAt [] ws) g := by
  have hwrite := attempts_map_request (f := some) hd hg (.node fileLabel (Graph.isText_fileKey path))
  refine hwrite.orRefused.mono ?_
  rintro x ws ⟨b, rfl, -⟩
  exact StaysAt.mergeNode fileLabel (Graph.isText_fileKey path) b

theorem completes_mergeFunction (name path : String) :
    (mergeFunction name path).Completes digest (fun _ ws ↦ StaysAt [] ws) g := by
  have hwrite := attempts_map_request (f := some) hd hg
    (.node functionLabel (Graph.isText_functionKey name path))
  refine hwrite.orRefused.mono ?_
  rintro x ws ⟨b, rfl, -⟩
  exact StaysAt.mergeNode functionLabel (Graph.isText_functionKey name path) b

/-- Of a merge it is told whether it succeeded. -/
theorem completes_merge {e : CodeEdge} {message : Fault → String} :
    (orRefused ((fun _ ↦ true) <$> request e.mergeRequest) message false).Completes digest
      (fun b ws ↦ ws = [⟨e.mergeRequest, b⟩]) g := by
  refine (attempts_map_request hd hg (.merge e)).orRefused.mono ?_
  rintro written ws ⟨b, rfl, hb⟩
  cases b with
  | true =>
    obtain ⟨-, rfl⟩ := hb
    rfl
  | false =>
    obtain rfl : written = false := hb
    rfl

theorem completes_mergeImport (path : String) (t : String × String) :
    (mergeImport path t.2 t.1).Completes digest
      (fun b ws ↦ ws = [⟨((EdgeSource.file path).edge t).mergeRequest, b⟩]) g :=
  completes_merge hd hg

theorem completes_mergeCall (name path : String) (t : String × String) :
    (mergeCall name path t.1 (.text t.2)).Completes digest
      (fun b ws ↦ ws = [⟨((EdgeSource.function name path).edge t).mergeRequest, b⟩]) g :=
  completes_merge hd hg

theorem completes_deleteImport (path : String) (t : String × String) :
    (deleteImport path (.text t.2) (.text t.1)).Completes digest
      (fun _ ws ↦ ∃ b, ws = [⟨((EdgeSource.file path).edge t).deleteRequest, b⟩]) g := by
  have hwrite := attempts_request hd hg (.delete ((EdgeSource.file path).edge t))
  refine hwrite.orRefused.mono ?_
  rintro n ws ⟨b, hws, -⟩
  exact ⟨b, hws⟩

theorem completes_deleteCall (name path : String) (t : String × String) :
    (deleteCall name path (.text t.1) (.text t.2)).Completes digest
      (fun _ ws ↦ ∃ b, ws = [⟨((EdgeSource.function name path).edge t).deleteRequest, b⟩]) g := by
  have hwrite := attempts_request hd hg (.delete ((EdgeSource.function name path).edge t))
  refine hwrite.orRefused.mono ?_
  rintro n ws ⟨b, hws, -⟩
  exact ⟨b, hws⟩

end Writes

/-! ## Merging what is wanted -/

/-- The edges were merged one by one, and as many of the merges succeeded as the number says. -/
structure Merged (s : EdgeSource) (wanted : List (String × String)) (n : Nat) (ws : List Write) :
    Prop where
  requests : ws.map (·.request) = wanted.map fun t ↦ (s.edge t).mergeRequest
  count : n = ws.countP (·.succeeded)

namespace Merged

variable {s : EdgeSource} {wanted : List (String × String)} {n : Nat} {ws : List Write}

theorem nil (s : EdgeSource) : Merged s [] 0 [] := ⟨rfl, rfl⟩

theorem cons (h : Merged s wanted n ws) (t : String × String) (b : Bool) :
    Merged s (t :: wanted) (if b then n + 1 else n) (⟨(s.edge t).mergeRequest, b⟩ :: ws) where
  requests := congrArg _ h.requests
  count := by
    rw [List.countP_cons, ← h.count]
    cases b with
    | true => rfl
    | false => rfl

theorem isCodeWrite (h : Merged s wanted n ws) : ∀ w ∈ ws, w.request.IsCodeWrite := by
  intro w hw
  have hmem := List.mem_map_of_mem (f := fun w : Write ↦ w.request) hw
  rw [h.requests, List.mem_map] at hmem
  obtain ⟨t, -, hrequest⟩ := hmem
  exact hrequest ▸ .merge _

end Merged

/-- The wanted edges, as the program has them at hand. -/
def asTexts (wanted : List (String × String)) : List (String × Datum) :=
  wanted.map fun t ↦ (t.1, .text t.2)

theorem isWanted_asTexts (wanted : List (String × String)) (t : String × String) :
    isWanted (asTexts wanted) (.text t.1) (.text t.2) = .ok (decide (t ∈ wanted)) := by
  rw [isWanted_of_scalar _ (Datum.isScalar_text t.1) (Datum.isScalar_text t.2)]
  have htexts : ∀ w ∈ asTexts wanted, w.2.IsText := by
    intro w hw
    obtain ⟨u, -, rfl⟩ := List.mem_map.mp hw
    trivial
  have hinj : Function.Injective fun t : String × String ↦ (t.1, Datum.text t.2) := by
    intro u v h
    obtain ⟨hname, hpath⟩ := Prod.mk.inj h
    exact Prod.ext hname (Datum.text.inj hpath)
  have hwants : wants (asTexts wanted) (.text t.1) (.text t.2) ↔ t ∈ wanted :=
    (wants_text htexts).trans (List.mem_map_of_injective hinj)
  exact congrArg _ (Bool.eq_iff_iff.mpr (hwants.trans decide_eq_true_iff.symm))

/-- The edges that the imports of a file stand for. -/
def importTargets (imports : List Import) : List (String × String) :=
  imports.map fun i ↦ (i.clause, i.source)

theorem asTexts_importTargets (imports : List Import) :
    asTexts (importTargets imports) = wantedImports imports := List.map_map

/-- The edges that calls in the file at the path stand for, given what the file imports. -/
def callTargets (linkLocal : Bool) (declared : List Function) (path : String)
    (imports : List Import) (callees : List String) : List (String × String) :=
  callees.filterMap fun c ↦ (callTarget? linkLocal declared path imports c).map fun q ↦ (c, q)

theorem callTargets_cons {linkLocal : Bool} {declared : List Function} {path : String}
    {imports : List Import} {c : String} {callees : List String} :
    callTargets linkLocal declared path imports (c :: callees)
      = match callTarget? linkLocal declared path imports c with
        | none => callTargets linkLocal declared path imports callees
        | some q => (c, q) :: callTargets linkLocal declared path imports callees := by
  rw [callTargets, List.filterMap_cons]
  cases callTarget? linkLocal declared path imports c with
  | none => rfl
  | some q => rfl

theorem isQuiet_findCalleePath (path callee : String) : (findCalleePath path callee).IsQuiet := by
  refine (isQuiet_request rfl).attempt.bind fun x ↦ ?_
  rcases x with e | edges
  · cases e with
    | graphQuery m c => exact (isQuiet_request rfl).bind fun _ ↦ trivial
    | _ => trivial
  · cases edges with
    | nil => trivial
    | cons e edges =>
      dsimp only
      split <;> trivial

section Merges

variable (hd : Function.Injective digest) (hg : g.Indexed digest)

include hd hg

theorem completes_mergeImports (path : String) (imports : List Import) :
    (mergeImports path imports).Completes digest (Merged (.file path) (importTargets imports)) g := by
  induction imports generalizing g with
  | nil => exact completes_pure (.nil _)
  | cons i imports ih =>
    refine (completes_mergeImport hd hg path (i.clause, i.source)).bind ?_
    rintro b ws rfl
    have hstays := StaysAt.merge ((EdgeSource.file path).edge (i.clause, i.source)) b
    have hnext := Graph.indexed_afterWrites hd hg hstays.isCodeWrite
    refine (ih hnext).bind fun n ws hws ↦ completes_pure ?_
    rw [List.append_nil]
    exact hws.cons (i.clause, i.source) b

/-- A lookup finds where the call leads. -/
theorem completes_findCalleePath (linkLocal : Bool) (declared : List Function) (f : Function)
    (callee : String) : (findCalleePath f.path callee).Completes digest
      (fun found ws ↦ targetPath linkLocal f (declared.map (·.name)) callee found
        = (callTarget? linkLocal declared f.path (g.importsOf f.path) callee).map .text ∧ ws = [])
      g := by
  have hfind := (gives_findCalleePath (n := 0) hg.textual Outages.none f.path callee).of_noOutages
  refine (hfind.completes (isQuiet_findCalleePath f.path callee)).mono ?_
  rintro found ws ⟨rfl, hws⟩
  exact ⟨targetPath_importedFrom hd hg rfl callee, hws⟩

/-- Merging calls changes no import, so the lookups find what was imported in the beginning. -/
theorem completes_linkCalls (linkLocal : Bool) (declared : List Function) (f : Function)
    {imports : List Import} (himports : g.importsOf f.path = imports) (callees : List String) :
    (linkCalls linkLocal f (declared.map (·.name)) callees).Completes digest
      (fun x ws ↦
        x.1 = asTexts (callTargets linkLocal declared f.path imports callees) ∧
        Merged (.function f.name f.path) (callTargets linkLocal declared f.path imports callees)
          x.2 ws) g := by
  induction callees generalizing g with
  | nil => exact completes_pure ⟨rfl, .nil _⟩
  | cons c callees ih =>
    rw [linkCalls_cons, callTargets_cons]
    refine (completes_findCalleePath hd hg linkLocal declared f c).bind ?_
    rintro found ws ⟨htarget, rfl⟩
    rw [htarget, himports]
    cases callTarget? linkLocal declared f.path imports c with
    | none => exact ih hg himports
    | some q =>
      -- The path is a text, so it can be compared and the call is merged.
      refine (completes_mergeCall hd hg f.name f.path (c, q)).bind ?_
      rintro b ws rfl
      have hstays := StaysAt.merge ((EdgeSource.function f.name f.path).edge (c, q)) b
      have hnext := Graph.indexed_afterWrites hd hg hstays.isCodeWrite
      have hfile : EdgeSource.file f.path ∉ [EdgeSource.function f.name f.path] := by
        rw [List.mem_singleton]
        exact EdgeSource.noConfusion
      have hsame := hstays.importsOf_afterWrites hd hg hfile
      refine (ih hnext (hsame.trans himports)).bind ?_
      rintro ⟨wanted, n⟩ ws ⟨hwanted, hmerged⟩
      refine completes_pure ⟨congrArg _ hwanted, ?_⟩
      rw [List.append_nil]
      exact hmerged.cons (c, q) b

end Merges

/-! ## Deleting what is not wanted -/

/-- What is read off an edge that was listed are the name and the path. -/
def ReadsAs (name path : Edge → Datum) (e : Edge) (t : String × String) : Prop :=
  name e = .text t.1 ∧ path e = .text t.2

theorem ReadsAs.unique {name path : Edge → Datum} {e : Edge} {t t' : String × String}
    (h : ReadsAs name path e t) (h' : ReadsAs name path e t') : t = t' :=
  Prod.ext (Datum.text.inj (h.1.symm.trans h'.1)) (Datum.text.inj (h.2.symm.trans h'.2))

/-- The edges that leave the source were listed. -/
structure Lists (digest : Digest) (s : EdgeSource) (name path : Edge → Datum) (g : Graph)
    (edges : List Edge) : Prop where
  exists_readsAs : ∀ e ∈ edges, ∃ t, ReadsAs name path e t
  exists_edge : ∀ t, (s.edge t).relationship digest ∈ g.relationships →
    ∃ e ∈ edges, ReadsAs name path e t

/-- Of the edges that were listed, those that are not wanted were deleted one by one, as far as the
deletions succeeded. -/
structure Deleted (s : EdgeSource) (wanted : List (String × String)) (name path : Edge → Datum)
    (edges : List Edge) (ws : List Write) : Prop where
  requests : ∀ w ∈ ws, ∃ t, t ∉ wanted ∧ w.request = (s.edge t).deleteRequest
  exists_deletion : ∀ e ∈ edges, ∀ t, t ∉ wanted → ReadsAs name path e t →
    ∃ b, ⟨(s.edge t).deleteRequest, b⟩ ∈ ws

namespace Deleted

variable {s : EdgeSource} {wanted : List (String × String)} {name path : Edge → Datum} {e : Edge}
  {edges : List Edge} {ws : List Write} {t : String × String}

theorem nil : Deleted s wanted name path [] [] :=
  ⟨fun _ h ↦ absurd h List.not_mem_nil, fun _ h ↦ absurd h List.not_mem_nil⟩

theorem keep (h : Deleted s wanted name path edges ws) (he : ReadsAs name path e t)
    (ht : t ∈ wanted) : Deleted s wanted name path (e :: edges) ws where
  requests := h.requests
  exists_deletion := by
    refine List.forall_mem_cons.mpr ⟨fun t' hnot he' ↦ ?_, h.exists_deletion⟩
    exact absurd (he.unique he' ▸ ht) hnot

theorem delete (h : Deleted s wanted name path edges ws) (he : ReadsAs name path e t)
    (ht : t ∉ wanted) (b : Bool) :
    Deleted s wanted name path (e :: edges) (⟨(s.edge t).deleteRequest, b⟩ :: ws) where
  requests := List.forall_mem_cons.mpr ⟨⟨t, ht, rfl⟩, h.requests⟩
  exists_deletion := by
    refine List.forall_mem_cons.mpr ⟨fun t' _ he' ↦ ⟨b, ?_⟩, fun e' hmem t' hnot he' ↦ ?_⟩
    · rw [← he.unique he']
      exact List.mem_cons_self
    · obtain ⟨b', hb'⟩ := h.exists_deletion e' hmem t' hnot he'
      exact ⟨b', List.mem_cons_of_mem _ hb'⟩

end Deleted

/-- What was merged and what was deleted afterwards make up an update. -/
theorem Merged.isUpdate {s : EdgeSource} {wanted : List (String × String)} {n : Nat}
    {name path : Edge → Datum} {edges : List Edge} {merges deletions : List Write}
    (hmerged : Merged s wanted n merges)
    (hlists : Lists digest s name path (g.afterWrites digest merges) edges)
    (hdeleted : Deleted s wanted name path edges deletions) :
    IsUpdate digest s wanted g merges deletions where
  merges_of := by
    intro w hw
    have hmem := List.mem_map_of_mem (f := fun w : Write ↦ w.request) hw
    rw [hmerged.requests, List.mem_map] at hmem
    obtain ⟨t, ht, hrequest⟩ := hmem
    exact ⟨t, ht, hrequest.symm⟩
  exists_merge := by
    intro t ht
    have hmem := List.mem_map_of_mem (f := fun t ↦ (s.edge t).mergeRequest) ht
    rw [← hmerged.requests, List.mem_map] at hmem
    obtain ⟨⟨r, b⟩, hw, rfl⟩ := hmem
    exact ⟨b, hw⟩
  deletions_of := hdeleted.requests
  exists_deletion := by
    intro t hnot hthere
    obtain ⟨e, he, ht⟩ := hlists.exists_edge t hthere
    exact hdeleted.exists_deletion e he t hnot ht

section Deletions

variable (hd : Function.Injective digest) (hg : g.Indexed digest)

include hd hg

theorem lists_imports (path : String) :
    Lists digest (.file path) (fun e ↦ propertyOf "clause" e.properties)
      (fun e ↦ propertyOf "path" e.target) g (g.edgesFrom importsFrom (fileId digest path) []) := by
  rw [hg.edgesFrom_imports hd]
  constructor
  · intro e he
    obtain ⟨i, -, rfl⟩ := List.mem_map.mp he
    exact ⟨(i.clause, i.source), rfl, rfl⟩
  · rintro ⟨clause, source⟩ hmem
    have hi : ⟨clause, source⟩ ∈ g.importsOf path := (hg.mem_importsOf hd).mpr hmem
    exact ⟨_, List.mem_map_of_mem hi, rfl, rfl⟩

theorem lists_calls (name path : String) :
    Lists digest (.function name path) (fun e ↦ propertyOf "name" e.target)
      (fun e ↦ propertyOf "path" e.target) g (g.edgesFrom calls (functionId digest name path) []) := by
  constructor
  · intro e he
    obtain ⟨r, hr, rfl⟩ := Graph.mem_edgesFrom.mp he
    obtain ⟨hmem, htype, hsource, -⟩ := Graph.mem_outgoing.mp hr
    obtain ⟨callee, target, rfl⟩ :=
      hg.exists_eq_relationship hd hmem (s := .function name path) ⟨htype, hsource⟩
    exact ⟨(callee, target), hg.textual.propertiesAt_function hd (hg.textual.target_mem _ hmem)⟩
  · rintro ⟨callee, target⟩ hmem
    refine ⟨_, Graph.mem_edgesFrom.mpr ⟨_, Graph.mem_outgoing.mpr ⟨hmem, rfl, rfl, rfl⟩, rfl⟩, ?_⟩
    exact hg.textual.propertiesAt_function hd (hg.textual.target_mem _ hmem)

/-- What is there and not wanted is deleted, as far as the deletions succeed. -/
theorem DeletesUnwanted.completes {s : EdgeSource} {wanted : List (String × String)}
    {name path : Edge → Datum} {delete : Datum → Datum → Program Nat} {p : List Edge → Program Unit}
    (hp : DeletesUnwanted (asTexts wanted) name path delete p)
    (hdelete : ∀ g t, g.Indexed digest → (delete (.text t.1) (.text t.2)).Completes digest
      (fun _ ws ↦ ∃ b, ws = [⟨(s.edge t).deleteRequest, b⟩]) g)
    {edges : List Edge} (hedges : ∀ e ∈ edges, ∃ t, ReadsAs name path e t) :
    (p edges).Completes digest (fun _ ws ↦ Deleted s wanted name path edges ws) g := by
  induction edges generalizing g with
  | nil =>
    rw [hp.nil]
    exact completes_pure .nil
  | cons e edges ih =>
    rw [List.forall_mem_cons] at hedges
    obtain ⟨⟨t, ht⟩, hedges⟩ := hedges
    rw [hp.cons, ht.1, ht.2, isWanted_asTexts]
    by_cases hwanted : t ∈ wanted
    · rw [decide_eq_true hwanted]
      exact Completes.mono (ih hg hedges) fun _ _ hws ↦ hws.keep ht hwanted
    · rw [decide_eq_false hwanted]
      refine (hdelete g t hg).bind ?_
      rintro _ _ ⟨b, rfl⟩
      have hdeletion : ∀ w ∈ [(⟨(s.edge t).deleteRequest, b⟩ : Write)], w.request.IsCodeWrite :=
        List.forall_mem_singleton.mpr (.delete _)
      have hnext := Graph.indexed_afterWrites hd hg hdeletion
      exact Completes.mono (ih hnext hedges) fun _ _ hws ↦ hws.delete ht hwanted b

end Deletions

/-! ## Sources -/

/-- The writes bring the edges of the source up to date, and the number is that of the merges that
succeeded. -/
def Updates (digest : Digest) (s : EdgeSource) (wanted : List (String × String)) (g : Graph)
    (n : Nat) (ws : List Write) : Prop :=
  n = mergedCount s.type ws ∧
    ∃ merges deletions, ws = merges ++ deletions ∧ IsUpdate digest s wanted g merges deletions

section Sources

variable (hd : Function.Injective digest) (hg : g.Indexed digest)

include hd hg

/-- After the wanted edges have been merged, those that are there are listed, and the unwanted ones
are deleted. -/
theorem completes_cleanUp {s : EdgeSource} {wanted : List (String × String)} {n : Nat}
    {merges : List Write} (hmerged : Merged s wanted n merges)
    {label : String} {key : Props} (hkey : ∀ e ∈ key, e.2.IsScalar)
    {name path : Edge → Datum} (hlists : ∀ h : Graph, h.Indexed digest →
      Lists digest s name path h (h.edgesFrom s.type (Graph.nodeId digest label key) []))
    {delete : Datum → Datum → Program Nat} {p : List Edge → Program Unit}
    (hp : DeletesUnwanted (asTexts wanted) name path delete p)
    (hdelete : ∀ g t, g.Indexed digest → (delete (.text t.1) (.text t.2)).Completes digest
      (fun _ ws ↦ ∃ b, ws = [⟨(s.edge t).deleteRequest, b⟩]) g)
    {k : Except Fault (List Edge) → Program Nat}
    (hk : ∀ edges, k (.ok edges) = (do p edges; pure n)) :
    ((request (.findRelationships s.type label key none)).attempt >>= k).Completes digest
      (fun m ws ↦ Updates digest s wanted g m (merges ++ ws)) (g.afterWrites digest merges) := by
  -- The listing is of the graph as the merges have left it, those that failed included.
  have hh := Graph.indexed_afterWrites hd hg hmerged.isCodeWrite
  have hlist := hlists _ hh
  have hanswer := Graph.answer?_findRelationships hh.textual s.type label none hkey
  have hlisted : (request (.findRelationships s.type label key none)).attempt.Completes digest
      (fun (x : Except Fault (List Edge)) ws ↦ x = .ok ((g.afterWrites digest merges).edgesFrom
        s.type (Graph.nodeId digest label key) []) ∧ ws = []) (g.afterWrites digest merges) :=
    (gives_request (Graph.only_answer hanswer)).attempt.completes (isQuiet_request rfl).attempt
  refine hlisted.bind ?_
  rintro x ws ⟨rfl, rfl⟩
  rw [hk]
  refine (hp.completes hd hh hdelete hlist.exists_readsAs).bind ?_
  intro _ deletions hdeleted
  have hupdate : IsUpdate digest s wanted g merges deletions := hmerged.isUpdate hlist hdeleted
  refine completes_pure ⟨?_, merges, deletions, ?_, hupdate⟩
  · rw [List.append_nil, List.nil_append, hupdate.mergedCount_eq, hmerged.count]
  · rw [List.append_nil, List.nil_append]

/-- **The imports of a file** are brought up to date, as far as the writes succeed. -/
theorem completes_syncImports (path : String) (imports : List Import) :
    (syncImports path imports).Completes digest
      (Updates digest (.file path) (importTargets imports) g) g := by
  refine (completes_mergeImports hd hg path imports).bind fun n merges hmerged ↦ ?_
  exact completes_cleanUp hd hg hmerged (Graph.isScalar_fileKey (Datum.isScalar_text path))
    (fun _ hh ↦ lists_imports hd hh path) (deletesUnwanted_imports path _)
    (fun _ t hh ↦ completes_deleteImport hd hh path t)
    fun _ ↦ by rw [asTexts_importTargets]; rfl

/-- **The calls of a function** are brought up to date, as far as the writes succeed. -/
theorem completes_resolveFunction (linkLocal : Bool) (f : Function) (declared : List Function) :
    (resolveFunction linkLocal f (declared.map (·.name))).Completes digest
      (Updates digest (.function f.name f.path)
        (callTargets linkLocal declared f.path (g.importsOf f.path) f.calls) g) g := by
  refine (completes_linkCalls hd hg linkLocal declared f rfl f.calls).bind ?_
  rintro ⟨wanted, n⟩ merges ⟨hwanted, hmerged⟩
  obtain rfl : wanted = asTexts _ := hwanted
  exact completes_cleanUp hd hg hmerged
    (Graph.isScalar_functionKey (Datum.isScalar_text f.name) (Datum.isScalar_text f.path))
    (fun _ hh ↦ lists_calls hd hh f.name f.path) (deletesUnwanted_calls f _)
    (fun _ t hh ↦ completes_deleteCall hd hh f.name f.path t) (fun _ ↦ rfl)

end Sources

end Indexing

end CodeAtlas
