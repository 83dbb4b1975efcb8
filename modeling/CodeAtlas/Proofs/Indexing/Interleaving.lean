import CodeAtlas.Proofs.Graph.Shared
import CodeAtlas.Proofs.Indexing.CallHistory

/-!
# Registrations that take turns

Registering a file is at home at the path of the file. It writes and deletes the imports of the file
and the calls of its functions, it looks up nothing else, and the nodes that it writes elsewhere are
those that anybody would write. So files at different paths can be registered at the same time, with
their requests in any order: what is found for one of them does not depend on how far the others
are, and the graph and the counts are those of registering one file after another.
-/

namespace CodeAtlas.Indexing

open CodeAtlas.Graph Program
open Syntax (Function Import Outline)

/-! ## What registering asks -/

/-- What is asked about the functions of the file at a path and about their calls. -/
inductive IsOfFunctions (path : String) : Request → Prop
  | mergeFunction (name q : String) :
      IsOfFunctions path (.mergeNode functionLabel (functionKey (.text name) (.text q)))
  | findImport (clause : String) : IsOfFunctions path
      (.findRelationships importsFrom fileLabel (fileKey (.text path))
        (some [("clause", .text clause)]))
  | mergeCall (name callee target : String) : IsOfFunctions path
      (.mergeRelationship calls functionLabel (functionKey (.text name) (.text path)) functionLabel
        (functionKey (.text callee) (.text target)) none)
  | findCalls (name : String) : IsOfFunctions path
      (.findRelationships calls functionLabel (functionKey (.text name) (.text path)) none)
  | deleteCall {callee target : Datum} (name : String) : callee.IsScalar → target.IsScalar →
      IsOfFunctions path (.deleteRelationship calls functionLabel
        (functionKey (.text name) (.text path)) functionLabel (functionKey callee target) none)
  | hasRecord (id : String) : IsOfFunctions path (.hasRecord id)
  | offer (item : Item) (force : Bool) : IsOfFunctions path (.offer item force)
  | queueStats : IsOfFunctions path .queueStats
  | note (n : Notice) : IsOfFunctions path (.note n)

theorem IsOfFunctions.isAtHome {path : String} {r : Request} (h : IsOfFunctions path r) :
    r.IsAtHome path := by
  cases h with
  | mergeFunction name q => exact ⟨q, isKeyOf_function name q⟩
  | findImport => exact isKeyOf_file path
  | mergeCall name callee target =>
    exact ⟨isKeyOf_function name path, ⟨target, isKeyOf_function callee target⟩, by simp⟩
  | findCalls name => exact isKeyOf_function name path
  | deleteCall name hcallee htarget =>
    exact ⟨isKeyOf_function name path, isScalar_functionKey hcallee htarget⟩
  | _ => trivial

section Asks

variable {α : Type} {path : String} {P : Request → Prop} {Q : α → Prop}
  {R : (r : Request) → Except Fault r.Reply → Prop}

/-- The requests of the program are at home at the path. -/
abbrev AsksAtHome (path : String) (Q : α → Prop) (p : Program α) : Prop :=
  p.Asks (Request.IsAtHome path) Request.IsTextualReply Q

/-- The requests of the program are about functions and their calls. -/
abbrev AsksOfFunctions (path : String) (Q : α → Prop) (p : Program α) : Prop :=
  p.Asks (IsOfFunctions path) Request.IsTextualReply Q

theorem asks_orRefused {p : Program α} {message : Fault → String} {substitute : α}
    (hnote : ∀ n, P (.note n)) (hp : p.Asks P R Q) (hsubstitute : Q substitute) :
    (orRefused p message substitute).Asks P R Q := by
  refine hp.attempt.bind fun x hx ↦ ?_
  cases x with
  | ok a => exact asks_pure (hx a rfl)
  | error e =>
    cases e with
    | graphWrite m c => exact (asks_request (hnote _)).bind fun _ _ ↦ asks_pure hsubstitute
    | _ => exact asks_fail

theorem DeletesUnwanted.asks {wanted : List (String × Datum)} {name target : Edge → Datum}
    {delete : Datum → Datum → Program Nat} {p : List Edge → Program Unit}
    (hp : DeletesUnwanted wanted name target delete p) {edges : List Edge}
    (hedges : ∀ e ∈ edges, (delete (name e) (target e)).Asks P R fun _ ↦ True) :
    (p edges).Asks P R fun _ ↦ True := by
  induction edges with
  | nil =>
    rw [hp.nil]
    exact asks_pure trivial
  | cons e edges ih =>
    rw [List.forall_mem_cons] at hedges
    rw [hp.cons]
    refine (asks_ofExcept (Q := fun _ ↦ True) fun _ _ ↦ trivial).bind fun known _ ↦ ?_
    cases known with
    | true => exact ih hedges.2
    | false => exact hedges.1.bind fun _ _ ↦ ih hedges.2

/-! ### Imports -/

theorem asks_mergeFile : AsksAtHome path (fun _ ↦ True) (mergeFile path) :=
  asks_orRefused (fun _ ↦ trivial)
    ((asks_request ⟨path, isKeyOf_file path⟩).map fun _ _ ↦ trivial) trivial

theorem asks_mergeImport {target clause : String} :
    AsksAtHome path (fun _ ↦ True) (mergeImport path target clause) := by
  refine asks_orRefused (fun _ ↦ trivial)
    ((asks_request ?_).bind fun _ _ ↦ asks_pure trivial) trivial
  exact ⟨isKeyOf_file path, ⟨target, isKeyOf_file target⟩, by simp [Datum.IsText]⟩

theorem asks_deleteImport {target clause : Datum} (htarget : target.IsScalar) :
    AsksAtHome path (fun _ ↦ True) (deleteImport path target clause) := by
  refine asks_orRefused (fun _ ↦ trivial) ((asks_request ?_).mono fun _ _ ↦ trivial) trivial
  exact ⟨isKeyOf_file path, isScalar_fileKey htarget⟩

theorem asks_mergeImports {imports : List Import} :
    AsksAtHome path (fun _ ↦ True) (mergeImports path imports) := by
  induction imports with
  | nil => exact asks_pure trivial
  | cons i imports ih =>
    exact asks_mergeImport.bind fun _ _ ↦ ih.bind fun _ _ ↦ asks_pure trivial

theorem asks_syncImports {imports : List Import} :
    AsksAtHome path (fun _ ↦ True) (syncImports path imports) := by
  refine asks_mergeImports.bind fun merged _ ↦ (asks_request (isKeyOf_file path)).attempt.bind
    fun x hx ↦ ?_
  cases x with
  | ok edges =>
    have htexts := hx edges rfl edges rfl
    exact ((deletesUnwanted_imports path _).asks fun e he ↦ asks_deleteImport
      (Textual.isScalar_propertyOf (htexts e he) "path")).bind fun _ _ ↦ asks_pure trivial
  | error e =>
    cases e with
    | graphQuery m c => exact (asks_request trivial).bind fun _ _ ↦ asks_pure trivial
    | _ => exact asks_fail

/-! ### Functions and calls -/

theorem asks_mergeFunction {name q : String} :
    AsksOfFunctions path (fun _ ↦ True) (mergeFunction name q) :=
  asks_orRefused .note ((asks_request (.mergeFunction name q)).map fun _ _ ↦ trivial) trivial

theorem asks_mergeCall {name callee : String} {d : Datum} (hd : d.IsText) :
    AsksOfFunctions path (fun _ ↦ True) (mergeCall name path callee d) := by
  obtain ⟨q, rfl⟩ : ∃ q, d = .text q := by
    cases d with
    | text q => exact ⟨q, rfl⟩
    | _ => exact hd.elim
  exact asks_orRefused .note
    ((asks_request (.mergeCall name callee q)).bind fun _ _ ↦ asks_pure trivial) trivial

theorem asks_deleteCall {name : String} {callee target : Datum} (hcallee : callee.IsScalar)
    (htarget : target.IsScalar) :
    AsksOfFunctions path (fun _ ↦ True) (deleteCall name path callee target) :=
  asks_orRefused .note
    ((asks_request (.deleteCall name hcallee htarget)).mono fun _ _ ↦ trivial) trivial

theorem asks_needsEnrichment {rules : RegistrationRules} {id : String} :
    AsksOfFunctions path (fun _ ↦ True) (needsEnrichment rules id) := by
  rw [needsEnrichment]
  split
  · exact asks_pure trivial
  · refine (asks_request (.hasRecord id)).attempt.bind fun x _ ↦ ?_
    cases x with
    | ok found => exact asks_pure trivial
    | error e =>
      cases e with
      | storage m c => exact (asks_request (.note _)).bind fun _ _ ↦ asks_pure trivial
      | _ => exact asks_fail

theorem asks_offer {item : Item} {force : Bool} :
    AsksOfFunctions path (fun _ ↦ True) (Enrichment.offer item force) := by
  refine (asks_request (.offer item force)).bind fun verdict _ ↦ ?_
  cases verdict with
  | full =>
    exact (asks_request .queueStats).bind fun _ _ ↦ (asks_request (.note _)).bind
      fun _ _ ↦ asks_pure trivial
  | _ => exact asks_pure trivial

theorem asks_registerFunctions {rules : RegistrationRules} {functions : List Function} :
    AsksOfFunctions path (fun _ ↦ True) (registerFunctions rules functions) := by
  induction functions with
  | nil => exact asks_pure trivial
  | cons f functions ih =>
    have hone : AsksOfFunctions path (fun _ ↦ True) (registerFunction rules f) := by
      refine asks_mergeFunction.bind fun id _ ↦ ?_
      cases id with
      | none => exact asks_pure trivial
      | some id =>
        dsimp only
        split
        · exact asks_pure trivial
        · refine asks_needsEnrichment.bind fun needed _ ↦ ?_
          cases needed with
          | true => exact asks_offer
          | false => exact asks_pure trivial
    exact hone.bind fun _ _ ↦ ih.bind fun _ _ ↦ asks_pure trivial

/-- What is found for a callee is the path of a file. -/
theorem asks_findCalleePath {callee : String} :
    AsksOfFunctions path (fun found ↦ ∀ d, found = some d → d.IsText)
      (findCalleePath path callee) := by
  refine (asks_request (.findImport callee)).attempt.bind fun x hx ↦ ?_
  rcases x with e | edges
  · cases e with
    | graphQuery m c =>
      exact (asks_request (.note _)).bind fun _ _ ↦ asks_pure fun d hd ↦ absurd hd (by simp)
    | _ => exact asks_fail
  · rcases edges with - | ⟨e, edges⟩
    · exact asks_pure fun d hd ↦ absurd hd (by simp)
    · have htext := Textual.isText_propertyOf
        (hx (e :: edges) rfl (e :: edges) rfl e List.mem_cons_self) "path"
      dsimp only
      generalize propertyOf "path" e.target = d at htext
      cases d with
      | null => exact asks_pure fun d hd ↦ absurd hd (by simp)
      | text s => exact asks_pure fun d hd ↦ Option.some.inj hd ▸ trivial
      | _ => exact (htext.resolve_left (by simp)).elim

theorem asks_linkCalls {linkLocal : Bool} {f : Function} {localNames callees : List String}
    (hf : f.path = path) :
    AsksOfFunctions path (fun _ ↦ True) (linkCalls linkLocal f localNames callees) := by
  subst hf
  induction callees with
  | nil => exact asks_pure trivial
  | cons c callees ih =>
    rw [linkCalls_cons]
    refine asks_findCalleePath.bind fun found hfound ↦ ?_
    cases htarget : targetPath linkLocal f localNames c found with
    | none => exact ih
    | some d =>
      refine (asks_ofExcept (Q := fun _ ↦ True) fun _ _ ↦ trivial).bind fun _ _ ↦ ?_
      refine (asks_mergeCall (isText_targetPath hfound htarget)).bind fun _ _ ↦ ?_
      exact ih.bind fun _ _ ↦ asks_pure trivial

theorem asks_resolveFunction {linkLocal : Bool} {f : Function} {localNames : List String}
    (hf : f.path = path) :
    AsksOfFunctions path (fun _ ↦ True) (resolveFunction linkLocal f localNames) := by
  refine (asks_linkCalls hf).bind fun linked _ ↦ ?_
  subst hf
  refine (asks_request (.findCalls f.name)).attempt.bind fun x hx ↦ ?_
  cases x with
  | ok edges =>
    have htexts := hx edges rfl edges rfl
    exact ((deletesUnwanted_calls f _).asks fun e he ↦ asks_deleteCall
      (Textual.isScalar_propertyOf (htexts e he) "name")
      (Textual.isScalar_propertyOf (htexts e he) "path")).bind fun _ _ ↦ asks_pure trivial
  | error e =>
    cases e with
    | graphQuery m c => exact (asks_request (.note _)).bind fun _ _ ↦ asks_pure trivial
    | _ => exact asks_fail

theorem asks_resolveFunctions {linkLocal : Bool} {localNames : List String}
    {functions : List Function} (hfunctions : ∀ f ∈ functions, f.path = path) :
    AsksOfFunctions path (fun _ ↦ True) (resolveFunctions linkLocal localNames functions) := by
  induction functions with
  | nil => exact asks_pure trivial
  | cons f functions ih =>
    rw [List.forall_mem_cons] at hfunctions
    exact (asks_resolveFunction hfunctions.1).bind fun _ _ ↦
      (ih hfunctions.2).bind fun _ _ ↦ asks_pure trivial

/-! ### Files -/

/-- **Registering a file is at home** at the path of the file. -/
theorem asks_registerFile {rules : RegistrationRules} {o : Outline} (ho : o.IsOwn) :
    AsksAtHome o.path (fun _ ↦ True) (registerFile rules (.ok o)) := by
  have hfunctions : AsksAtHome o.path (fun _ ↦ True) (registerFunctions rules o.functions) :=
    asks_registerFunctions.mono_request fun _ ↦ IsOfFunctions.isAtHome
  have hcalls : AsksAtHome o.path (fun _ ↦ True) (resolveFile rules.linkLocal o.functions) :=
    (asks_resolveFunctions ho).mono_request fun _ ↦ IsOfFunctions.isAtHome
  have houtline : AsksAtHome o.path (fun _ ↦ True) (registerOutline rules o) :=
    asks_mergeFile.bind fun _ _ ↦ asks_syncImports.bind fun _ _ ↦
      hfunctions.bind fun _ _ ↦ hcalls.bind fun _ _ ↦ asks_pure trivial
  refine houtline.attempt.bind fun x _ ↦ ?_
  cases x with
  | ok r => exact asks_pure trivial
  | error e =>
    dsimp only
    split
    · exact (asks_request trivial).bind fun _ _ ↦ asks_pure trivial
    · exact asks_fail

end Asks

/-! ## The outcome of taking turns -/

/-- The file was registered, and its imports and calls were counted as the table says. -/
def Counted (counts : Outline → ℕ × ℕ) (o : Outline) (x : Except Fault (Option Registration)) :
    Prop :=
  ∃ r, x = .ok (some r) ∧ r.path = o.path ∧ (r.imports, r.calls) = counts o

/-- What registering a file alone counts. -/
def countsAlone (digest : Digest) (linkLocal : Bool) (g : Graph) (o : Outline) : ℕ × ℕ :=
  (o.imports.length, linkedCount linkLocal (o.functions.map (·.name))
    (importedFrom digest (prepared digest o g)) Outages.none o.functions 0)

section Runs

variable {σ : Type} {digest digest' : Digest} {store : σ → Store} {respond : Responder σ}

/-- Registrations that take turns end as if each were alone. -/
theorem shared_registered (hserves : Serves digest store respond)
    (hd : Function.Injective digest') {rules : RegistrationRules} {os : List Outline}
    (hown : ∀ o ∈ os, o.IsOwn) (hpaths : (os.map (·.path)).Nodup) {g : Graph}
    (hg : g.Textual digest') {s t : σ} (hs : (store s).Holds g) {rs : List Request}
    {xs : List (Except Fault (Option Registration))}
    (hrun : Interleaves respond (os.map fun o ↦ registerFile rules (.ok o)) s rs xs t)
    (hagree : ∀ r ∈ rs, ∀ t ∈ r.hashed digest, digest t = digest' t) :
    ∃ g', (store t).Holds g' ∧
      Shared digest' g (os.map fun o ↦ (o.path, registered digest' rules.linkLocal o g)) g' ∧
      List.Forall₂ (Counted (countsAlone digest' rules.linkLocal g)) os xs ∧
      ∀ r ∈ rs, r.IsTextual := by
  have hends : ∀ o ∈ os, (registerFile rules (.ok o)).Ends (Answers digest')
      (fun x h ↦ h = registered digest' rules.linkLocal o g ∧
        Counted (countsAlone digest' rules.linkLocal g) o x) g := by
    intro o _
    refine (ends_registerFile hg).mono ?_
    rintro x h ⟨⟨r, rfl, hpath, himports, hcalls⟩, rfl⟩
    exact ⟨rfl, r, rfl, hpath, by rw [himports, hcalls]; rfl⟩
  obtain ⟨h, hh, ends, hfst, hshared, hall, htextual⟩ := hserves.exists_ends_of_interleaves hd
    (·.path) _ _ hg hpaths (fun o ho ↦ asks_registerFile (hown o ho)) hends hrun hagree hs
  obtain ⟨hfinal, hxs⟩ := (List.forall₂_and_left _ _).mp hall
  have hlanes : ends.map (fun e ↦ (e.1.path, e.2))
      = (ends.map (·.1)).map fun o ↦ (o.path, registered digest' rules.linkLocal o g) := by
    rw [List.map_map]
    exact List.map_congr_left fun e he ↦ by rw [hfinal e he]; rfl
  rw [hfst] at hlanes
  refine ⟨h, hh, hlanes ▸ hshared, ?_, htextual⟩
  rw [← hfst, List.forall₂_map_left_iff]
  exact hxs

/-- **Taking turns makes no difference**: however the requests of several registrations are
interleaved, the graph and the counts are those of registering the files one after another, in any
order. -/
theorem same_graph_of_interleaves (hserves : Serves digest store respond) {s : σ}
    (hs : (store s).Holds .empty) {history : List Request} (hhistory : ∀ r ∈ history, r.IsTextual)
    (rules : RegistrationRules) {os os' : List Outline} (hown : ∀ o ∈ os, o.IsOwn)
    (hpaths : (os.map (·.path)).Nodup) (horder : os'.Perm os) {t : σ} {rs : List Request}
    {xs : List (Except Fault (Option Registration))}
    (hrun : Interleaves respond (os.map fun o ↦ registerFile rules (.ok o))
      (respond.after history s) rs xs t)
    (hdigest : Collisionless digest ((history ++ rs
      ++ traceAll respond (os'.map fun o ↦ registerFile rules (.ok o))
        (respond.after history s)).flatMap (Request.hashed digest))) :
    ∃ g h, (store t).Holds g ∧
      (store (runAll respond (os'.map fun o ↦ registerFile rules (.ok o))
        (respond.after history s)).2).Holds h ∧
      (∀ n, n ∈ g.nodes ↔ n ∈ h.nodes) ∧ (∀ r, r ∈ g.relationships ↔ r ∈ h.relationships) ∧
      ∃ counts, List.Forall₂ (Counted counts) os xs ∧
        List.Forall₂ (Counted counts) os' (runAll respond
          (os'.map fun o ↦ registerFile rules (.ok o)) (respond.after history s)).1 := by
  -- Both courses of events are compared with what each registration does when it is alone.
  obtain ⟨digest', hd, hagree⟩ := exists_injective_eqOn hdigest
  have hagree' : ∀ r, r ∈ history ∨ r ∈ rs ∨ _ → ∀ t ∈ r.hashed digest, digest t = digest' t :=
    fun r hr t ht ↦ hagree t (List.mem_flatMap.mpr ⟨r, by
      rw [List.append_assoc, List.mem_append, List.mem_append]
      exact hr, ht⟩)
  obtain ⟨g₀, hg₀, htextual⟩ := hserves.exists_textual_after hs hhistory
    fun r hr ↦ hagree' r (Or.inl hr)
  obtain ⟨g, hg, hshared, hxs, -⟩ := shared_registered hserves hd hown hpaths htextual hg₀ hrun
    fun r hr ↦ hagree' r (Or.inr (Or.inl hr))
  have hown' : ∀ o ∈ os', o.IsOwn := fun o ho ↦ hown o (horder.mem_iff.mp ho)
  obtain ⟨h, hh, hshared', hxs', -⟩ := shared_registered hserves hd hown'
    ((horder.map _).nodup_iff.mpr hpaths) htextual hg₀
    (interleaves_runAll respond _ _) fun r hr ↦ hagree' r (Or.inr (Or.inr hr))
  obtain ⟨hnodes, hrelationships⟩ := hshared.mem_iff hd
    (fun l ↦ (horder.symm.map _).mem_iff) hshared'
  exact ⟨g, h, hg, hh, hnodes, hrelationships, _, hxs, hxs'⟩

end Runs

/-! ## Two files with a node in common -/

/-- Two files, of which the first one calls the function of the second one. -/
def callerAndCallee : List Outline :=
  [{ path := "/a.ts"
     imports := [⟨"b", "/b.ts"⟩]
     functions := [⟨"a", "/a.ts", "function a() \x7b b(); \x7d", 2, 2, ["b"]⟩] },
   { path := "/b.ts"
     imports := []
     functions := [⟨"b", "/b.ts", "function b() \x7b\x7d", 1, 1, []⟩] }]

/-- The second file is begun, then the first one is registered, then the second one is finished. The
graph is the one of registering the second file and then the first one. -/
theorem same_graph_of_interleaves_callerAndCallee : ∃ rs xs t,
    Interleaves Rehearsal.serve
      (callerAndCallee.map fun o ↦ registerFile ⟨false, false, false⟩ (.ok o))
      (Rehearsal.new {} .empty) rs xs t ∧
    ∃ g h, (Rehearsal.store t).Holds g ∧
      (Rehearsal.store (runAll Rehearsal.serve
        (callerAndCallee.reverse.map fun o ↦ registerFile ⟨false, false, false⟩ (.ok o))
        (Rehearsal.new {} .empty)).2).Holds h ∧
      (∀ n, n ∈ g.nodes ↔ n ∈ h.nodes) ∧ (∀ r, r ∈ g.relationships ↔ r ∈ h.relationships) ∧
      ∃ counts, List.Forall₂ (Counted counts) callerAndCallee xs ∧
        List.Forall₂ (Counted counts) callerAndCallee.reverse (runAll Rehearsal.serve
          (callerAndCallee.reverse.map fun o ↦ registerFile ⟨false, false, false⟩ (.ok o))
          (Rehearsal.new {} .empty)).1 := by
  have hrun : Interleaves Rehearsal.serve
      (callerAndCallee.map fun o ↦ registerFile ⟨false, false, false⟩ (.ok o))
      (Rehearsal.new {} .empty) _ _ _ :=
    Interleaves.turn [_] [] (interleaves_runAll Rehearsal.serve _ _)
  have hhistory : ∀ r ∈ ([] : List Request), r.IsTextual := fun r hr ↦ absurd hr List.not_mem_nil
  have hown : ∀ o ∈ callerAndCallee, o.IsOwn := by decide
  exact ⟨_, _, _, hrun, same_graph_of_interleaves Rehearsal.serves Store.holds_empty hhistory
    ⟨false, false, false⟩ hown (by decide) (List.reverse_perm _) hrun (by decide +kernel)⟩

end CodeAtlas.Indexing
