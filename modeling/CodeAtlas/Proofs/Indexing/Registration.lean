import CodeAtlas.Indexing.Registration
import CodeAtlas.Proofs.Indexing.Calls
import CodeAtlas.Proofs.Indexing.Imports

/-!
# What registering a file does

A registration consists of writes to the graph, whose outcome is settled, and of dealings with the
record store and the queue, whose outcome is not. The dealings decide how many functions are queued
and nothing else: the graph afterwards is `registered`, and a file that cannot be read leaves the
graph as it is.
-/

namespace CodeAtlas.Indexing

open CodeAtlas.Graph Program
open Syntax (Function Outline)

/-- The graph with functions added. -/
def addFunctions (digest : Digest) (functions : List Function) (g : Graph) : Graph :=
  functions.foldl (fun g f ↦
    g.mergeNode digest functionLabel (functionKey (.text f.name) (.text f.path))) g

/-- The graph before the calls of a file are resolved. -/
def prepared (digest : Digest) (o : Outline) (g : Graph) : Graph :=
  addFunctions digest o.functions
    (synced digest o.path o.imports (g.mergeNode digest fileLabel (fileKey (.text o.path))))

/-- The graph after a file has been registered. -/
def registered (digest : Digest) (linkLocal : Bool) (o : Outline) (g : Graph) : Graph :=
  resolvedAll digest linkLocal (o.functions.map (·.name))
    (importedFrom digest (prepared digest o g)) Outages.none o.functions 0 (prepared digest o g)

variable {digest : Digest} {g : Graph} {rules : RegistrationRules}

theorem textual_addFunctions (hg : g.Textual digest) {functions : List Function} :
    (addFunctions digest functions g).Textual digest := by
  induction functions generalizing g with
  | nil => exact hg
  | cons f functions ih => exact ih (hg.mergeNode (isText_functionKey f.name f.path))

theorem relationships_addFunctions {functions : List Function} :
    (addFunctions digest functions g).relationships = g.relationships := by
  induction functions generalizing g with
  | nil => rfl
  | cons f functions ih => exact ih.trans (relationships_mergeNode g _ _)

theorem textual_prepared (hg : g.Textual digest) {o : Outline} :
    (prepared digest o g).Textual digest :=
  textual_addFunctions (textual_synced (hg.mergeNode (isText_fileKey o.path)))

/-! ## The program -/

theorem ends_needsEnrichment {functionId : String} :
    (needsEnrichment rules functionId).Ends (Answers digest)
      (fun x h ↦ (∃ b, x = .ok b) ∧ h = g) g := by
  rw [needsEnrichment]
  split
  · exact ⟨⟨true, rfl⟩, rfl⟩
  · rintro x h ⟨⟨found, rfl⟩ | ⟨m, c, rfl⟩, rfl⟩
    · exact ⟨⟨!found, rfl⟩, rfl⟩
    · exact (gives_request only_note).bind_ends ⟨⟨true, rfl⟩, rfl⟩

theorem ends_offer {item : Item} {force : Bool} :
    (Enrichment.offer item force).Ends (Answers digest)
      (fun x h ↦ (∃ b, x = .ok b) ∧ h = g) g := by
  rintro x h ⟨⟨verdict, rfl⟩, rfl⟩
  cases verdict with
  | pending => exact ⟨⟨true, rfl⟩, rfl⟩
  | alreadyProcessed => exact ⟨⟨false, rfl⟩, rfl⟩
  | full =>
    rintro y k ⟨⟨stats, rfl⟩, rfl⟩
    exact (gives_request only_note).bind_ends ⟨⟨false, rfl⟩, rfl⟩

theorem ends_registerFunction {f : Function} :
    (registerFunction rules f).Ends (Answers digest) (fun x h ↦ (∃ b, x = .ok b) ∧
      h = g.mergeNode digest functionLabel (functionKey (.text f.name) (.text f.path))) g := by
  have hmerge : (mergeFunction f.name f.path).Gives (Answers digest) g _ _ :=
    gives_mergeFunction (only_answer rfl)
  refine hmerge.bind_ends ?_
  dsimp only
  split
  · exact ⟨⟨false, rfl⟩, rfl⟩
  · refine ends_bind.mpr (ends_needsEnrichment.mono ?_)
    rintro x h ⟨⟨b, rfl⟩, rfl⟩
    cases b with
    | true => exact ends_offer
    | false => exact ⟨⟨false, rfl⟩, rfl⟩

theorem ends_registerFunctions {functions : List Function} :
    (registerFunctions rules functions).Ends (Answers digest)
      (fun x h ↦ (∃ n, x = .ok n) ∧ h = addFunctions digest functions g) g := by
  induction functions generalizing g with
  | nil => exact ⟨⟨0, rfl⟩, rfl⟩
  | cons f functions ih =>
    refine ends_bind.mpr (ends_registerFunction.mono ?_)
    rintro x h ⟨⟨queued, rfl⟩, rfl⟩
    refine ends_bind.mpr (ih.mono ?_)
    rintro x h ⟨⟨n, rfl⟩, rfl⟩
    exact ⟨⟨_, rfl⟩, rfl⟩

/-- Over a graph of texts, a file that could be read is registered. -/
theorem ends_registerOutline (hg : g.Textual digest) {o : Outline} :
    (registerOutline rules o).Ends (Answers digest) (fun x h ↦ (∃ enqueued, x = .ok
      { path := o.path, imports := o.imports.length, functions := o.functions.length
        calls := linkedCount rules.linkLocal (o.functions.map (·.name))
          (importedFrom digest (prepared digest o g)) Outages.none o.functions 0
        enqueued }) ∧ h = registered digest rules.linkLocal o g) g := by
  have hfile : (mergeFile o.path).Gives (Answers digest) g _
      (g.mergeNode digest fileLabel (fileKey (.text o.path))) := gives_mergeFile (only_answer rfl)
  refine hfile.bind_ends ((gives_syncImports (hg.mergeNode (isText_fileKey o.path))).bind_ends ?_)
  refine ends_bind.mpr (ends_registerFunctions.mono ?_)
  rintro x h ⟨⟨n, rfl⟩, rfl⟩
  obtain ⟨m, hresolve⟩ := gives_resolveFunctions (textual_prepared hg (o := o)) rfl rules.linkLocal
    (o.functions.map (·.name)) Outages.none o.functions 0
  exact hresolve.of_noOutages.bind_ends ⟨⟨n, rfl⟩, rfl⟩

/-- What is reported of a file that could be read is settled, up to the functions that are queued. -/
theorem ends_registerFile_report (hg : g.Textual digest) {o : Outline} :
    (registerFile rules (.ok o)).Ends (Answers digest) (fun x h ↦ (∃ enqueued, x = .ok (some
      { path := o.path, imports := o.imports.length, functions := o.functions.length
        calls := linkedCount rules.linkLocal (o.functions.map (·.name))
          (importedFrom digest (prepared digest o g)) Outages.none o.functions 0
        enqueued })) ∧ h = registered digest rules.linkLocal o g) g := by
  refine ends_bind.mpr (ends_attempt.mpr ((ends_registerOutline hg).mono ?_))
  rintro x h ⟨⟨n, rfl⟩, rfl⟩
  exact ⟨⟨n, rfl⟩, rfl⟩

theorem ends_registerFile (hg : g.Textual digest) {o : Outline} :
    (registerFile rules (.ok o)).Ends (Answers digest)
      (fun x h ↦ (∃ r, x = .ok (some r) ∧ r.path = o.path ∧ r.imports = o.imports.length ∧
          r.calls = linkedCount rules.linkLocal (o.functions.map (·.name))
            (importedFrom digest (prepared digest o g)) Outages.none o.functions 0)
        ∧ h = registered digest rules.linkLocal o g) g := by
  refine (ends_registerFile_report hg).mono ?_
  rintro x h ⟨⟨n, rfl⟩, rfl⟩
  exact ⟨⟨_, rfl, rfl, rfl, rfl⟩, rfl⟩

/-- A file that could not be read changes nothing. -/
theorem ends_registerFile_error {e : Fault} :
    (registerFile rules (.error e)).Ends (Answers digest) (fun _ h ↦ h = g) g := by
  cases e with
  | source path why => exact (gives_request only_note).bind_ends rfl
  | _ => rfl

end CodeAtlas.Indexing
