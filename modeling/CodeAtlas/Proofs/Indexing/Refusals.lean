import CodeAtlas.Proofs.Indexing.Attempts
import CodeAtlas.Proofs.Indexing.Idempotence

/-!
# Registering files while writes are refused

A write that is refused is reported and passed over, and the rest of the file is still written.
Whatever graph indexing has reached, and whichever writes are refused, a registration comes to a
report, and what it leaves differs from what it should leave only where a write failed:

* the numbers of imports and calls in the report are those of the merges that succeeded;
* a wanted edge that was there stays, and one that is missing failed to be merged;
* an edge that is left over failed to be deleted;
* edges of other sources are as before.

This is `keptUp_of_refusals`. For imports it is about the whole registration, since nothing else in
it concerns them. What a function should call depends on what its file imports at that time, so for
calls it is about bringing one function up to date, in every state that the registration passes
through.
-/

namespace CodeAtlas

open CodeAtlas.Graph (importsFrom calls)
open Program

namespace Indexing

open Syntax (Function Outline)

variable {digest : Digest} {g : Graph} {rules : RegistrationRules}

/-! ## Files -/

theorem isQuiet_needsEnrichment (id : String) : (needsEnrichment rules id).IsQuiet := by
  rw [needsEnrichment]
  split
  · trivial
  · refine (isQuiet_request rfl).attempt.bind fun x ↦ ?_
    rcases x with e | found
    · cases e with
      | storage m c => exact (isQuiet_request rfl).bind fun _ ↦ trivial
      | _ => trivial
    · trivial

theorem isQuiet_offer (item : Item) (force : Bool) : (Enrichment.offer item force).IsQuiet := by
  refine (isQuiet_request rfl).bind fun verdict ↦ ?_
  cases verdict with
  | full => exact (isQuiet_request rfl).bind fun _ ↦ (isQuiet_request rfl).bind fun _ ↦ trivial
  | _ => trivial

def functionSources (functions : List Function) : List EdgeSource :=
  functions.map fun f ↦ .function f.name f.path

/-- The writes of a registration: between writes that are not about them, the imports of the file
are brought up to date. -/
def Registers (digest : Digest) (o : Outline) (g : Graph) (ws : List Write) : Prop :=
  ∃ pre merges deletions post, ws = pre ++ (merges ++ deletions) ++ post ∧ StaysAt [] pre ∧
    IsUpdate digest (.file o.path) (importTargets o.imports) (g.afterWrites digest pre) merges
      deletions ∧ StaysAt (functionSources o.functions) post

section Files

variable (hd : Function.Injective digest) (hg : g.Indexed digest)

include hd hg

/-- A function whose node was refused is not queued, and queueing writes nothing. -/
theorem completes_registerFunction (f : Function) :
    (registerFunction rules f).Completes digest (fun _ ws ↦ StaysAt [] ws) g := by
  refine (completes_mergeFunction hd hg f.name f.path).bind fun id ws hws ↦ ?_
  have hdone : ∀ b h, (pure b : Program Bool).Completes digest (fun _ new ↦ StaysAt [] (ws ++ new))
      h := fun b h ↦ completes_pure (by rwa [List.append_nil])
  cases id with
  | none => exact hdone false _
  | some id =>
    dsimp only
    split
    · exact hdone false _
    -- What follows goes to the record store and to the queue.
    · refine (ends_needsEnrichment.completes_nil (isQuiet_needsEnrichment id)).bind ?_
      rintro b _ rfl
      cases b with
      | true =>
        refine (ends_offer.completes_nil (isQuiet_offer _ _)).mono ?_
        rintro b _ rfl
        simpa using hws
      | false => exact hdone false _

theorem completes_registerFunctions (functions : List Function) :
    (registerFunctions rules functions).Completes digest (fun _ ws ↦ StaysAt [] ws) g := by
  induction functions generalizing g with
  | nil => exact completes_pure (.nil _)
  | cons f functions ih =>
    refine (completes_registerFunction hd hg f).bind fun queued ws hws ↦ ?_
    have hnext := Graph.indexed_afterWrites hd hg hws.isCodeWrite
    refine (ih hnext).bind fun n ws' hws' ↦ completes_pure ?_
    rw [List.append_nil]
    exact hws.append hws'

theorem completes_resolveFunctions (linkLocal : Bool) (declared functions : List Function) :
    (resolveFunctions linkLocal (declared.map (·.name)) functions).Completes digest
      (fun n ws ↦ n = mergedCount calls ws ∧ StaysAt (functionSources functions) ws) g := by
  induction functions generalizing g with
  | nil => exact completes_pure ⟨rfl, .nil _⟩
  | cons f functions ih =>
    refine (completes_resolveFunction hd hg linkLocal f declared).bind ?_
    rintro n _ ⟨hn, merges, deletions, rfl, hupdate⟩
    have hnext := Graph.indexed_afterWrites hd hg hupdate.staysAt.isCodeWrite
    refine (ih hnext).bind ?_
    rintro m ws ⟨hm, hws⟩
    refine completes_pure ⟨?_, ?_⟩
    · rw [List.append_nil, mergedCount_append, hm]
      exact congrArg (· + _) hn
    · rw [List.append_nil]
      refine (hupdate.staysAt.mono ?_).append (hws.mono (List.subset_cons_self _ _))
      exact List.cons_subset_cons _ (List.nil_subset _)

/-- **Registering a file** never fails, and reports the merges that succeeded. -/
theorem completes_registerOutline (rules : RegistrationRules) (o : Outline) :
    (registerOutline rules o).Completes digest (fun r ws ↦ r.imports = mergedCount importsFrom ws ∧
      r.calls = mergedCount calls ws ∧ Registers digest o g ws) g := by
  refine (completes_mergeFile hd hg o.path).bind fun _ pre hpre ↦ ?_
  have hfile := Graph.indexed_afterWrites hd hg hpre.isCodeWrite
  refine (completes_syncImports hd hfile o.path o.imports).bind ?_
  rintro imports _ ⟨himports, merges, deletions, rfl, hupdate⟩
  have hsynced := Graph.indexed_afterWrites hd hfile hupdate.staysAt.isCodeWrite
  refine (completes_registerFunctions hd hsynced o.functions).bind fun enqueued nodes hnodes ↦ ?_
  have hadded := Graph.indexed_afterWrites hd hsynced hnodes.isCodeWrite
  refine (completes_resolveFunctions hd hadded rules.linkLocal o.functions o.functions).bind ?_
  rintro linked resolving ⟨hlinked, hresolving⟩
  -- Nodes count for nothing, calls for nothing among imports, and imports for nothing among calls.
  have hnone : ∀ {type ws}, StaysAt [] ws → mergedCount type ws = 0 := fun h ↦
    h.mergedCount_eq_zero fun _ h ↦ absurd h List.not_mem_nil
  have hcount : ∀ type, mergedCount type
      (pre ++ ((merges ++ deletions) ++ (nodes ++ (resolving ++ []))))
        = mergedCount type (merges ++ deletions) + mergedCount type resolving := by
    intro type
    rw [List.append_nil, mergedCount_append, mergedCount_append type (merges ++ deletions),
      mergedCount_append type nodes, hnone hpre, hnone hnodes, Nat.zero_add, Nat.zero_add]
  have hcalls : mergedCount importsFrom resolving = 0 := by
    refine hresolving.mergedCount_eq_zero fun s hs ↦ ?_
    obtain ⟨f, -, rfl⟩ := List.mem_map.mp hs
    exact importsFrom_ne_calls.symm
  have himported : mergedCount calls (merges ++ deletions) = 0 :=
    hupdate.staysAt.mergedCount_eq_zero fun s hs ↦ List.mem_singleton.mp hs ▸ importsFrom_ne_calls
  refine completes_pure ⟨?_, ?_, pre, merges, deletions, nodes ++ resolving, ?_, hpre, hupdate,
    (hnodes.mono (List.nil_subset _)).append hresolving⟩
  · rw [hcount, hcalls, Nat.add_zero]
    exact himports
  · rw [hcount, himported, Nat.zero_add]
    exact hlinked
  · rw [List.append_nil, List.append_assoc pre]

theorem completes_registerFile (rules : RegistrationRules) (o : Outline) :
    (registerFile rules (.ok o)).Completes digest (fun x ws ↦ ∃ r, x = some r ∧
      r.imports = mergedCount importsFrom ws ∧ r.calls = mergedCount calls ws ∧
      Registers digest o g ws) g := by
  refine (completes_registerOutline hd hg rules o).attempt.bind ?_
  rintro x ws ⟨r, rfl, hr⟩
  exact completes_pure ⟨r, rfl, by rwa [List.append_nil]⟩

end Files

namespace Registers

variable {o : Outline} {ws : List Write} (h : Registers digest o g ws)

include h

theorem staysAt : StaysAt (.file o.path :: functionSources o.functions) ws := by
  obtain ⟨pre, merges, deletions, post, rfl, hpre, hupdate, hpost⟩ := h
  refine ((hpre.mono (List.nil_subset _)).append (hupdate.staysAt.mono ?_)).append
    (hpost.mono (List.subset_cons_self _ _))
  exact List.cons_subset_cons _ (List.nil_subset _)

theorem keptUp (hd : Function.Injective digest) (hg : g.Indexed digest) :
    KeptUp (.file o.path) (importTargets o.imports) g ws (g.afterWrites digest ws) := by
  obtain ⟨pre, merges, deletions, post, rfl, hpre, hupdate, hpost⟩ := h
  refine hupdate.keptUp hd hg (fun hfile ↦ ?_) (hpre.mono (List.nil_subset _)) hpost
  obtain ⟨f, -, hf⟩ := List.mem_map.mp hfile
  exact EdgeSource.noConfusion hf

end Registers

end Indexing

/-! ## Runs -/

section Runs

variable {σ α : Type} {digest digest' : Digest} {store : σ → Store} {respond : Responder σ}
  {refusals : Refusals} {g : Graph} {s : σ} {n : Nat}

/-- A run takes one graph to another with these writes, and comes to this result. -/
structure Program.RunsTo (store : σ → Store) (respond : Responder (σ × Nat)) (p : Program α)
    (s : σ × Nat) (g : Graph) (a : α) (ws : List Write) (h : Graph) : Prop where
  before : (store s.1).Holds g
  result : (p.run respond s).1 = .ok a
  writes : p.writes respond s = ws
  after : (store (p.run respond s).2.1).Holds h

/-- Requests that write nothing are requests of indexing. -/
theorem Request.isIndexing_of_not_isWrite {r : Request} (h : r.isWrite = false) : r.IsIndexing := by
  cases r with
  | mergeNode | mergeRelationship => exact Bool.noConfusion h
  | _ => trivial

theorem Program.isIndexing_of_mem_trace {respond : Responder σ} {p : Program α} {s : σ}
    (h : ∀ w ∈ p.writes respond s, w.request.IsCodeWrite) :
    ∀ r ∈ p.trace respond s, r.IsIndexing := by
  intro r hr
  cases hwrite : r.isWrite with
  | false => exact Request.isIndexing_of_not_isWrite hwrite
  | true =>
    have hmem : r ∈ (p.writes respond s).map (·.request) := by
      rw [map_request_writes, List.mem_filter]
      exact ⟨hr, hwrite⟩
    obtain ⟨w, hw, rfl⟩ := List.mem_map.mp hmem
    exact (h w hw).isIndexing

namespace Serves

variable (hserves : Serves digest store respond)

include hserves

/-- Runs with refusals against a store do what the program attempts. -/
theorem runsTo {p : Program α} {S : α → List Write → Prop} (hp : p.Completes digest' S g)
    (hs : (store s).Holds g) (hagree : ∀ r ∈ p.trace (respond.withRefusals refusals) (s, n),
      ∀ t ∈ r.hashed digest, digest t = digest' t) :
    ∃ a ws, p.RunsTo store (respond.withRefusals refusals) (s, n) g a ws
      (g.afterWrites digest' ws) ∧ S a ws := by
  obtain ⟨h, hh, new, hnew, a, ha, hS⟩ := (hp []).run_withRefusals
    (fun s g ↦ (store s).Holds g) hs fun r hr _ _ hs ↦ hserves.answers (hagree r hr) hs
  obtain ⟨rfl, rfl⟩ := Prod.mk.inj hnew
  exact ⟨a, _, ⟨hs, ha, rfl, hh⟩, hS⟩

/-- Refusals do not lead to other kinds of graphs. -/
theorem exists_indexed_after_refusals (hd : Function.Injective digest') (refusals : Refusals)
    {history : List Request} (hhistory : ∀ r ∈ history, r.IsIndexing)
    (hagree : ∀ r ∈ history, ∀ t ∈ r.hashed digest, digest t = digest' t)
    (hs : (store s).Holds g) (hg : g.Indexed digest') :
    ∃ h, (store ((respond.withRefusals refusals).after history (s, n)).1).Holds h ∧
      h.Indexed digest' := by
  induction history generalizing s n g with
  | nil => exact ⟨g, hs, hg⟩
  | cons r history ih =>
    rw [List.forall_mem_cons] at hhistory hagree
    obtain ⟨h, hh, -, hanswer⟩ := exists_answer_withRefusals
      (fun s g ↦ (store s).Holds g) refusals n [] hs (hserves.answers hagree.1 hs)
    have hindexed : h.Indexed digest' := by
      -- A request that was refused has left the graph as it was.
      rcases hanswer with hanswer | ⟨-, heq⟩
      · exact hg.answers hd hhistory.1 hanswer
      · obtain rfl : h = g := heq
        exact hg
    exact ih hhistory.2 hagree.2 hh hindexed

end Serves

end Runs

namespace Indexing

open Syntax (Function Outline)

variable {σ : Type} {digest : Digest} {store : σ → Store} {respond : Responder σ} {s : σ}

/-- The calls of the function are brought up to date, but for what failed, and it is reported how
many of them were merged. What it should call depends on what its file imports in the beginning. -/
def CallsKeptUp (store : σ → Store) (respond : Responder (σ × Nat)) (linkLocal : Bool)
    (f : Function) (declared : List Function) (t : σ × Nat) : Prop :=
  ∃ g n ws h,
    (resolveFunction linkLocal f (declared.map (·.name))).RunsTo store respond t g n ws h ∧
    n = mergedCount calls ws ∧
    KeptUp (.function f.name f.path)
      (callTargets linkLocal declared f.path (g.importsOf f.path) f.calls) g ws h ∧
    h.elsewhere [.function f.name f.path] = g.elsewhere [.function f.name f.path]

section Refusals

variable (hserves : Serves digest store respond) (refusals : Refusals) (hs : (store s).Holds .empty)
  {history : List Request} (hhistory : ∀ r ∈ history, r.IsIndexing)

include hserves hs hhistory

/-- **One function under refusals**, in every graph that indexing has reached. -/
theorem callsKeptUp (linkLocal : Bool) (f : Function) (declared : List Function)
    (hdigest : Collisionless digest ((history
      ++ (resolveFunction linkLocal f (declared.map (·.name))).trace (respond.withRefusals refusals)
        ((respond.withRefusals refusals).after history (s, 0))).flatMap (Request.hashed digest))) :
    CallsKeptUp store (respond.withRefusals refusals) linkLocal f declared
      ((respond.withRefusals refusals).after history (s, 0)) := by
  obtain ⟨digest', hd, hagree⟩ := exists_injective_eqOn hdigest
  have hagree' : ∀ r, r ∈ history ∨ _ → ∀ t ∈ r.hashed digest, digest t = digest' t :=
    fun r hr t ht ↦ hagree t (List.mem_flatMap.mpr ⟨r, List.mem_append.mpr hr, ht⟩)
  obtain ⟨g, hgs, hg⟩ := hserves.exists_indexed_after_refusals (n := 0) hd refusals hhistory
    (fun r hr ↦ hagree' r (Or.inl hr)) hs Graph.indexed_empty
  obtain ⟨n, ws, hrun, hcount, merges, deletions, rfl, hupdate⟩ :=
    hserves.runsTo (completes_resolveFunction hd hg linkLocal f declared) hgs
      fun r hr ↦ hagree' r (Or.inr hr)
  exact ⟨g, n, _, _, hrun, hcount, hupdate.keptUp_alone hd hg,
    hupdate.staysAt.elsewhere_afterWrites hd hg⟩

/-- **A file under refusals.** Whichever writes are refused, registering a file comes to a report of
the merges that succeeded, keeps the imports of the file up to date but for what failed, and leaves
the edges of other sources alone. Wherever it has got to, bringing a function up to date from there
does the same for the calls of the function. -/
theorem keptUp_of_refusals (rules : RegistrationRules) (o : Outline)
    (hdigest : Collisionless digest ((history
      ++ (registerFile rules (.ok o)).trace (respond.withRefusals refusals)
        ((respond.withRefusals refusals).after history (s, 0))).flatMap (Request.hashed digest))) :
    (∃ g report ws h, (registerFile rules (.ok o)).RunsTo store (respond.withRefusals refusals)
        ((respond.withRefusals refusals).after history (s, 0)) g (some report) ws h ∧
      report.imports = mergedCount importsFrom ws ∧ report.calls = mergedCount calls ws ∧
      KeptUp (.file o.path) (importTargets o.imports) g ws h ∧
      h.elsewhere (.file o.path :: functionSources o.functions)
        = g.elsewhere (.file o.path :: functionSources o.functions)) ∧
    ∀ past, past <+: (registerFile rules (.ok o)).trace (respond.withRefusals refusals)
        ((respond.withRefusals refusals).after history (s, 0)) →
      ∀ linkLocal f declared, Collisionless digest ((history ++ past
        ++ (resolveFunction linkLocal f (declared.map (·.name))).trace
          (respond.withRefusals refusals)
          ((respond.withRefusals refusals).after (history ++ past) (s, 0))).flatMap
            (Request.hashed digest)) →
      CallsKeptUp store (respond.withRefusals refusals) linkLocal f declared
        ((respond.withRefusals refusals).after (history ++ past) (s, 0)) := by
  obtain ⟨digest', hd, hagree⟩ := exists_injective_eqOn hdigest
  have hagree' : ∀ r, r ∈ history ∨ _ → ∀ t ∈ r.hashed digest, digest t = digest' t :=
    fun r hr t ht ↦ hagree t (List.mem_flatMap.mpr ⟨r, List.mem_append.mpr hr, ht⟩)
  obtain ⟨g, hgs, hg⟩ := hserves.exists_indexed_after_refusals (n := 0) hd refusals hhistory
    (fun r hr ↦ hagree' r (Or.inl hr)) hs Graph.indexed_empty
  obtain ⟨_, ws, hrun, report, rfl, himports, hcalls, hregisters⟩ :=
    hserves.runsTo (completes_registerFile hd hg rules o) hgs
      fun r hr ↦ hagree' r (Or.inr hr)
  constructor
  · exact ⟨g, report, ws, _, hrun, himports, hcalls, hregisters.keptUp hd hg,
      hregisters.staysAt.elsewhere_afterWrites hd hg⟩
  -- The requests so far are requests of indexing, so they only make the history longer.
  · intro past hpast linkLocal f declared hdigest'
    have hpast' : ∀ r ∈ past, r.IsIndexing := fun r hr ↦
      isIndexing_of_mem_trace (hrun.writes ▸ hregisters.staysAt.isCodeWrite) r (hpast.subset hr)
    exact callsKeptUp hserves refusals hs (List.forall_mem_append.mpr ⟨hhistory, hpast'⟩) linkLocal
      f declared hdigest'

end Refusals

/-- Every other write is refused. -/
def everyOther : Refusals := fun n ↦ if n % 2 = 1 then some ("down", none) else none

/-- One of the imports that are wanted was there before and fails to be merged again, and so does
the deletion of the call that the second declaration does not make. -/
theorem keptUp_of_refusals_declaredAgain :
    (∀ r ∈ importedOnce, r.IsIndexing) ∧
    (∃ g report ws h, (registerFile ⟨true, false, false⟩ (.ok declaredAgain)).RunsTo
        Rehearsal.store (Responder.withRefusals everyOther Rehearsal.serve)
        ((Responder.withRefusals everyOther Rehearsal.serve).after importedOnce
          (Rehearsal.new {} .empty, 0)) g (some report) ws h ∧
      report.imports = mergedCount importsFrom ws ∧ report.calls = mergedCount calls ws ∧
      KeptUp (.file "p") [("b", "r"), ("b", "q")] g ws h ∧
      h.elsewhere [.file "p", .function "f" "p", .function "f" "p"]
        = g.elsewhere [.file "p", .function "f" "p", .function "f" "p"]) ∧
    CallsKeptUp Rehearsal.store (Responder.withRefusals everyOther Rehearsal.serve) true
      ⟨"f", "p", "", 1, 1, ["b"]⟩ declaredTwice
      ((Responder.withRefusals everyOther Rehearsal.serve).after importedOnce
        (Rehearsal.new {} .empty, 0)) := by
  obtain ⟨hfile, hfunction⟩ := keptUp_of_refusals Rehearsal.serves everyOther
    (s := Rehearsal.new {} .empty) Store.holds_empty isIndexing_importedOnce ⟨true, false, false⟩
    declaredAgain (by decide +kernel)
  exact ⟨isIndexing_importedOnce, hfile, hfunction [] List.nil_prefix true _ _ (by decide +kernel)⟩

end Indexing

end CodeAtlas
