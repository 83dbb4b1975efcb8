import CodeAtlas.Proofs.Indexing.History
import CodeAtlas.Proofs.Syntax.Declarations

/-!
# Calls after a history

With calls linked by imports alone, a call is written when its name is imported, so one might expect
that behind every call in the graph there is an import. A registration keeps to that for the
functions that the version declares: their calls are resolved by the imports of the same version,
and those that are not resolved are deleted. A function that is not declared any more is not
resolved, so its calls stay, and the next version may drop the imports that they were linked by.

Behind a call there is therefore an import if the last version of the caller's file declares the
caller. If it does not, there is one only if the version happens to have the import. That the second
case occurs is shown by a file whose only function and only import are removed together.
-/

namespace CodeAtlas

/-! ## The functions of a version -/

namespace Syntax

/-- The functions that an outline declares are functions of its file. -/
def Outline.IsOwn (o : Outline) : Prop := ∀ f ∈ o.functions, f.path = o.path

instance (o : Outline) : Decidable o.IsOwn :=
  inferInstanceAs (Decidable (∀ f ∈ o.functions, f.path = o.path))

theorem Outline.path_functionOf {s : Source} {path : String} {found : Tree.Place × Tree}
    {f : Function} (h : Outline.functionOf s path found = some f) : f.path = path := by
  rw [Outline.functionOf] at h
  split at h
  · obtain ⟨name, -, rfl⟩ := Option.map_eq_some_iff.mp h
    rfl
  · exact absurd h (by simp)

/-- What is read from a source is an outline of its own functions. -/
theorem SourceRules.isOwn_outline {rules : SourceRules} {locate : String → String} {path : String}
    {bytes : List UInt8} {o : Outline} (h : rules.outline locate path bytes = .ok o) : o.IsOwn := by
  obtain ⟨dialect, -, htree⟩ := Outline.exists_ofTree_of_outline h
  obtain ⟨imports, -, rfl⟩ := Outline.ofTree_eq_some htree
  intro f hf
  obtain ⟨found, -, hfound⟩ := List.mem_filterMap.mp hf
  exact Outline.path_functionOf hfound

end Syntax

namespace Indexing

open CodeAtlas.Graph Program
open Syntax (Function Import Outline)

variable {digest : Digest} {versions : List (Except Fault Outline)} {g : Graph}

/-- Besides the imports, the calls in the graph are recorded: a declared caller has imported what it
calls. -/
structure CallsRecorded (digest : Digest) (versions : List (Except Fault Outline)) (g : Graph) :
    Prop extends Recorded digest versions g where
  call_mem : ∀ r ∈ g.relationships, r.type = calls → ∃ name path callee target,
    r = callRelationship digest name path callee target ∧ ∃ o, lastVersion versions path = some o ∧
      (name ∈ o.functions.map (·.name) → ⟨callee, target⟩ ∈ o.imports)

theorem callsRecorded_empty : CallsRecorded digest [] .empty where
  toRecorded := recorded_empty
  call_mem := fun _ h ↦ absurd h List.not_mem_nil

theorem CallsRecorded.append_error (h : CallsRecorded digest versions g) {e : Fault} :
    CallsRecorded digest (versions ++ [.error e]) g where
  toRecorded := h.toRecorded.append_error
  call_mem := by
    rw [lastVersion_append_error]
    exact h.call_mem

theorem linkedCalls_imported {imported : String → Option Datum} {f : Function}
    {localNames : List String} {callees : List String} {n : ℕ} {c : String} {d : Datum}
    (h : (c, d) ∈ linkedCalls false f localNames imported Outages.none callees n) :
    imported c = some d := by
  obtain ⟨k, -, hk⟩ := mem_linkedCalls.mp h
  rw [show (Outages.none k).isSome = false from rfl, if_neg Bool.false_ne_true] at hk
  cases himported : imported c with
  | some e =>
    rw [himported] at hk
    exact hk
  | none =>
    rw [himported, targetPath] at hk
    exact absurd hk (by simp)

section Injective

variable (hd : Function.Injective digest)

include hd

theorem callRelationship_inj {name path callee target name' path' callee' target' : String} :
    callRelationship digest name path callee target
      = callRelationship digest name' path' callee' target' ↔
        name = name' ∧ path = path' ∧ callee = callee' ∧ target = target' := by
  constructor
  · intro h
    obtain ⟨hname, hpath⟩ := (functionId_inj hd).mp (congrArg Relationship.sourceId h)
    obtain ⟨hcallee, htarget⟩ := (functionId_inj hd).mp (congrArg Relationship.targetId h)
    exact ⟨hname, hpath, hcallee, htarget⟩
  · rintro ⟨rfl, rfl, rfl, rfl⟩
    rfl

/-- What is found for a name is imported by the last version. -/
theorem Recorded.mem_of_importedFrom (h : Recorded digest versions g) {path name target : String}
    (hfound : importedFrom digest g path name = some (.text target)) :
    ∃ o, lastVersion versions path = some o ∧ ⟨name, target⟩ ∈ o.imports := by
  obtain ⟨e, he, htarget⟩ := Option.bind_eq_some_iff.mp hfound
  obtain ⟨r, hr, rfl⟩ := mem_edgesFrom.mp (List.mem_of_head? he)
  obtain ⟨hmem, htype, hsource, hclause⟩ := mem_outgoing.mp hr
  obtain ⟨p, i, rfl⟩ := h.imports r hmem htype
  obtain rfl := (fileId_inj hd).mp hsource
  have hname : i.clause = name := by
    rw [importRelationship_properties, includes, List.all_cons, List.all_nil, Bool.and_true]
      at hclause
    exact (Datum.text.inj (Datum.same_text_left.mp hclause)).symm
  have hpath : i.source = target := by
    rw [importRelationship_targetId, h.textual.propertiesAt_file hd
      (h.textual.target_mem _ hmem)] at htarget
    exact Datum.text.inj (Option.some.inj htarget)
  obtain ⟨o, ho, hi⟩ := (h.imports_iff p i).mp hmem
  refine ⟨o, ho, ?_⟩
  rw [← hname, ← hpath]
  exact hi

/-- A call that is there after resolving was linked just now, or was there before and its caller was
not resolved. -/
theorem mem_resolvedAll_call {imported : String → String → Option Datum} {linkLocal : Bool}
    {localNames : List String} {functions : List Function} {n : ℕ} (hg : g.Textual digest)
    (himported : importedFrom digest g = imported) {name path callee target : String}
    (hr : callRelationship digest name path callee target ∈ (resolvedAll digest linkLocal localNames
      imported Outages.none functions n g).relationships) :
    (∃ f ∈ functions, f.name = name ∧ f.path = path ∧ ∃ m, (callee, .text target) ∈
      linkedCalls linkLocal f localNames (imported path) Outages.none f.calls m) ∨
    (callRelationship digest name path callee target ∈ g.relationships ∧
      ∀ f ∈ functions, ¬ (f.name = name ∧ f.path = path)) := by
  induction functions generalizing g n with
  | nil => exact Or.inr ⟨hr, fun f hf ↦ absurd hf List.not_mem_nil⟩
  | cons f functions ih =>
    rcases ih (textual_resolved hg himported) (importedFrom_resolved hg himported) hr with
      ⟨k, hk, hlinked⟩ | ⟨hmem, hnone⟩
    · exact Or.inl ⟨k, List.mem_cons_of_mem _ hk, hlinked⟩
    · obtain ⟨hmem, hlists⟩ := (mem_resolved hd hg himported).mp hmem
      have hwanted := hlists.resolve_left (by simp [Outages.none])
      rcases hmem with hmem | ⟨c, q, hlinked, heq⟩
      · by_cases hf : f.name = name ∧ f.path = path
        · obtain ⟨rfl, rfl⟩ := hf
          refine Or.inl ⟨f, List.mem_cons_self, rfl, rfl, n, ?_⟩
          exact not_not.mp fun hnot ↦ hwanted ⟨rfl, rfl, callee, target, rfl, hnot⟩
        · refine Or.inr ⟨hmem, fun k hk ↦ ?_⟩
          rcases List.mem_cons.mp hk with rfl | hk
          · exact hf
          · exact hnone k hk
      · obtain ⟨rfl, rfl, rfl, rfl⟩ := (callRelationship_inj hd).mp heq
        exact Or.inl ⟨f, List.mem_cons_self, rfl, rfl, n, hlinked⟩

/-- Resolving writes calls and nothing else. -/
theorem mem_of_mem_resolvedAll {imported : String → String → Option Datum} {linkLocal : Bool}
    {localNames : List String} {outages : Outages} {functions : List Function} {n : ℕ}
    (hg : g.Textual digest) (himported : importedFrom digest g = imported) {r : Relationship}
    (hr : r ∈ (resolvedAll digest linkLocal localNames imported outages functions n
      g).relationships) :
    r ∈ g.relationships ∨ ∃ name path callee target,
      r = callRelationship digest name path callee target := by
  induction functions generalizing g n with
  | nil => exact Or.inl hr
  | cons f functions ih =>
    rcases ih (textual_resolved hg himported) (importedFrom_resolved hg himported) hr with
      hmem | hcall
    · rcases ((mem_resolved hd hg himported).mp hmem).1 with hmem | ⟨c, q, -, heq⟩
      · exact Or.inl hmem
      · exact Or.inr ⟨_, _, _, _, heq⟩
    · exact Or.inr hcall

theorem CallsRecorded.registered (h : CallsRecorded digest versions g) {o : Outline}
    (ho : o.IsOwn) :
    CallsRecorded digest (versions ++ [.ok o]) (registered digest false o g) where
  toRecorded := h.toRecorded.registered hd
  call_mem r hr htype := by
    have hprepared := h.toRecorded.prepared hd (o := o)
    have hold : ∀ q ∈ (prepared digest o g).relationships, q.type = calls →
        q ∈ g.relationships := fun q hq hcalls ↦
      (mem_prepared_of_ne hd h.textual (Or.inl (by rw [hcalls]; decide))).mp hq
    obtain ⟨name, path, callee, target, rfl⟩ : ∃ name path callee target,
        r = callRelationship digest name path callee target := by
      rcases mem_of_mem_resolvedAll hd hprepared.textual rfl hr with hmem | hcall
      · obtain ⟨name, path, callee, target, heq, -⟩ := h.call_mem r (hold r hmem htype) htype
        exact ⟨name, path, callee, target, heq⟩
      · exact hcall
    refine ⟨name, path, callee, target, rfl, ?_⟩
    rcases mem_resolvedAll_call hd hprepared.textual rfl hr with
      ⟨f, hf, rfl, rfl, m, hlinked⟩ | ⟨hmem, hnone⟩
    · obtain ⟨v, hv, himport⟩ := hprepared.mem_of_importedFrom hd (linkedCalls_imported hlinked)
      exact ⟨v, hv, fun _ ↦ himport⟩
    · obtain ⟨name', path', callee', target', heq, v, hv, himport⟩ := h.call_mem _ (hold _ hmem rfl) rfl
      obtain ⟨rfl, rfl, rfl, rfl⟩ := (callRelationship_inj hd).mp heq
      rw [lastVersion_append_ok]
      by_cases hpath : o.path = path
      · refine ⟨o, if_pos hpath, fun hdeclared ↦ ?_⟩
        obtain ⟨f, hf, hname⟩ := List.mem_map.mp hdeclared
        exact absurd ⟨hname, (ho f hf).trans hpath⟩ (hnone f hf)
      · exact ⟨v, by rw [if_neg hpath, hv], himport⟩

end Injective

/-- What a visit reads declares functions of its own file. -/
theorem Visit.isOwn_version {v : Visit} {o : Outline} (h : v.version = .ok o) : o.IsOwn := by
  rw [Visit.version, outlineAt] at h
  split at h
  · exact absurd h (by simp)
  · dsimp only at h
    split at h
    · exact Syntax.SourceRules.isOwn_outline h
    · exact absurd h (by simp)

theorem CallsRecorded.ends_register (hd : Function.Injective digest)
    (h : CallsRecorded digest versions g) {v : Visit}
    (hv : v.rules.registration.linkLocal = false) :
    v.register.Ends (Answers digest)
      (fun _ k ↦ CallsRecorded digest (versions ++ [v.version]) k) g := by
  rw [Visit.register, registerPath, ← Visit.version]
  cases hversion : v.version with
  | error e =>
    refine ends_registerFile_error.mono ?_
    rintro x k rfl
    exact h.append_error
  | ok o =>
    refine (ends_registerFile h.textual).mono ?_
    rintro x k ⟨-, rfl⟩
    rw [hv]
    exact h.registered hd (Visit.isOwn_version hversion)

/-- Behind the call there is an import. -/
theorem CallsRecorded.exists_import_iff (hd : Function.Injective digest)
    (h : CallsRecorded digest versions g) {path clause source : String} :
    (∃ r ∈ g.relationships, g.isImport path clause source r) ↔
      ∃ o, lastVersion versions path = some o ∧ ⟨clause, source⟩ ∈ o.imports := by
  constructor
  · rintro ⟨r, hr, himport⟩
    obtain ⟨htype, hsource, htarget, hclause⟩ := (h.textual.isImport_iff hd hr).mp himport
    obtain ⟨p, i, rfl⟩ := h.imports r hr htype
    obtain rfl := (fileId_inj hd).mp hsource
    obtain ⟨o, ho, hi⟩ := (h.imports_iff p i).mp hr
    have hi' : i = ⟨clause, source⟩ := by
      rw [← (fileId_inj hd).mp htarget, ← Datum.text.inj hclause]
    exact ⟨o, ho, hi' ▸ hi⟩
  · rintro ⟨o, ho, hi⟩
    have hmem := (h.imports_iff path ⟨clause, source⟩).mpr ⟨o, ho, hi⟩
    exact ⟨_, hmem, (h.textual.isImport_iff hd hmem).mpr ⟨rfl, rfl, rfl, rfl⟩⟩

/-! ## The calls after a history -/

/-- **Behind a call there is an import** if the last version of the caller's file declares the
caller, and otherwise only if that version still has the import. -/
theorem exists_import_of_call_iff {σ : Type} {store : σ → Store} {respond : Responder σ}
    (hserves : Serves digest store respond) {s : σ} (hs : (store s).Holds .empty)
    (visits : List Visit) (hlocal : ∀ v ∈ visits, v.rules.registration.linkLocal = false)
    (hdigest : Collisionless digest
      ((traceAll respond (visits.map Visit.register) s).flatMap (Request.hashed digest))) :
    ∃ g, (store (runAll respond (visits.map Visit.register) s).2).Holds g ∧
      ∀ r ∈ g.relationships, r.type = calls → ∃ name path callee target,
        g.isCall name path callee target r ∧
        ∃ o, lastVersion (visits.map Visit.version) path = some o ∧
          ((∃ q ∈ g.relationships, g.isImport path callee target q) ↔
            name ∈ o.functions.map (·.name) ∨ ⟨callee, target⟩ ∈ o.imports) := by
  obtain ⟨digest', hd, hagree⟩ := exists_injective_eqOn hdigest
  obtain ⟨g, hg, hrecorded⟩ := hserves.runAll Visit.register
    (fun past g ↦ CallsRecorded digest' (past.map Visit.version) g) [] visits
    (fun past v hv g hrecorded ↦ by
      rw [List.map_append, List.map_singleton]
      exact hrecorded.ends_register hd (hlocal v hv))
    (fun r hr t ht ↦ hagree t (List.mem_flatMap.mpr ⟨r, hr, ht⟩)) hs callsRecorded_empty
  refine ⟨g, hg, fun r hr htype ↦ ?_⟩
  obtain ⟨name, path, callee, target, rfl, o, ho, himport⟩ := hrecorded.call_mem r hr htype
  refine ⟨name, path, callee, target,
    (hrecorded.textual.isCall_iff hd hr).mpr ⟨rfl, rfl, rfl⟩, o, ho, ?_⟩
  rw [hrecorded.exists_import_iff hd]
  constructor
  · rintro ⟨o', ho', hi⟩
    obtain rfl := Option.some.inj (ho.symm.trans ho')
    exact Or.inr hi
  · rintro (hdeclared | hi)
    · exact ⟨o, ho, himport hdeclared⟩
    · exact ⟨o, ho, hi⟩

/-! ## A function that is removed together with its import -/

/-- First the file imports a function and calls it, then nothing of this is left. -/
def removal : List Visit :=
  [loneVisit "import \x7bb\x7d from './b';\nfunction a() \x7b b(); \x7d\n", loneVisit "const x = 1;\n"]

theorem register_removal : removal.map Visit.register =
    [registerFile ⟨false, false, false⟩ (.ok
      { path := "/a.ts"
        imports := [⟨"b", "/b.ts"⟩]
        functions := [⟨"a", "/a.ts", "function a() \x7b b(); \x7d", 2, 2, ["b"]⟩] }),
      registerFile ⟨false, false, false⟩ (.ok ⟨"/a.ts", [], []⟩)] := by
  have hbefore : (loneVisit "import \x7bb\x7d from './b';\nfunction a() \x7b b(); \x7d\n").version
      = .ok
        { path := "/a.ts"
          imports := [⟨"b", "/b.ts"⟩]
          functions := [⟨"a", "/a.ts", "function a() \x7b b(); \x7d", 2, 2, ["b"]⟩] } :=
    version_loneVisit (by decide +kernel)
  have hafter : (loneVisit "const x = 1;\n").version = .ok ⟨"/a.ts", [], []⟩ :=
    version_loneVisit (by decide +kernel)
  rw [removal, List.map_cons, List.map_cons, List.map_nil, Visit.register_eq, Visit.register_eq,
    hbefore, hafter]
  rfl

/-- The graph after the removal, as far as it is about calls and imports. -/
theorem exists_import_of_call_iff_removal :
    ∃ g, (runAll Rehearsal.serve (removal.map Visit.register) (Rehearsal.new {} .empty)).2.store.Holds
        g ∧
      ∀ r ∈ g.relationships, r.type = calls → ∃ name path callee target,
        g.isCall name path callee target r ∧
        ∃ o, lastVersion (removal.map Visit.version) path = some o ∧
          ((∃ q ∈ g.relationships, g.isImport path callee target q) ↔
            name ∈ o.functions.map (·.name) ∨ ⟨callee, target⟩ ∈ o.imports) :=
  exists_import_of_call_iff Rehearsal.serves Store.holds_empty removal (by decide)
    (by rw [register_removal]; decide +kernel)

/-- **A call outlives its import**: that behind every call there is an import is not so. -/
theorem not_forall_exists_import_of_call : ¬ ∀ (visits : List Visit),
    (∀ v ∈ visits, v.rules.registration.linkLocal = false) →
    ∀ g, (runAll Rehearsal.serve (visits.map Visit.register)
      (Rehearsal.new {} .empty)).2.store.Holds g →
    ∀ r ∈ g.relationships, ∀ name path callee target, g.isCall name path callee target r →
      ∃ q ∈ g.relationships, g.isImport path callee target q := by
  intro h
  have hrun : ((runAll Rehearsal.serve (removal.map Visit.register)
      (Rehearsal.new {} .empty)).2.store.look (fun g ↦ .ok
        (g.relationships.any (g.isCall "a" "/a.ts" "b" "/b.ts")
          && !g.relationships.any (g.isImport "/a.ts" "b" "/b.ts")))
        fun _ ↦ .ok false).toOption = some true := by
    rw [register_removal]
    decide +kernel
  obtain ⟨g, hg, hfound⟩ := Store.exists_holds_of_look hrun
  replace hfound := Option.some.inj hfound
  rw [Bool.and_eq_true, Bool.not_eq_true', List.any_eq_true, List.any_eq_false] at hfound
  obtain ⟨⟨r, hr, hcall⟩, hnone⟩ := hfound
  obtain ⟨q, hq, himport⟩ := h removal (by decide) g hg r hr "a" "/a.ts" "b" "/b.ts" hcall
  exact hnone q hq himport

end Indexing

end CodeAtlas
