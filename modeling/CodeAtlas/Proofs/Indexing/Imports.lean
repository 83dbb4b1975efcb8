import CodeAtlas.Proofs.Indexing.Writer

/-!
# What syncing the imports of a file does

The imports of a file are merged one by one, then the edges that leave the file are listed, and
those that are not wanted are deleted one by one. Over a graph of texts none of these steps can
fail, so the outcome is a graph that can be written down: the merges add relationships, and the
deletions together remove those that some unwanted edge stands for.

An edge is unwanted as a pair of a clause and a path, both read from the graph. For a relationship
that says what an import says, that pair is the import itself, so the deletions remove exactly the
imports that the file does not have any more. This is `mem_synced_import`.
-/

namespace CodeAtlas.Indexing

open CodeAtlas.Graph Program
open Syntax (Import)

attribute [ext] Import

/-- An import as it stands in the graph. -/
def importRelationship (digest : Digest) (path : String) (i : Import) : Relationship :=
  keyRelationship digest importsFrom fileLabel (fileKey (.text path)) fileLabel
    (fileKey (.text i.source)) [("clause", .text i.clause)]

/-- The graph with the imports of a file added. -/
def addImports (digest : Digest) (path : String) (imports : List Import) (g : Graph) : Graph :=
  imports.foldl (fun g i ↦ g.mergeRelationship digest importsFrom fileLabel (fileKey (.text path))
    fileLabel (fileKey (.text i.source)) [("clause", .text i.clause)]) g

def wantedImports (imports : List Import) : List (String × Datum) :=
  imports.map fun i ↦ (i.clause, .text i.source)

/-- Does an edge that is not wanted stand for the relationship? -/
def isStaleImport (digest : Digest) (path : String) (wanted : List (String × Datum)) :
    List Edge → Relationship → Bool :=
  isUnwanted wanted (fun e ↦ propertyOf "clause" e.properties) (fun e ↦ propertyOf "path" e.target)
    fun clause target ↦ isBetween importsFrom (fileId digest path)
      (nodeId digest fileLabel (fileKey target)) [("clause", clause)]

/-- The graph after the imports of a file have been brought up to date. -/
def synced (digest : Digest) (path : String) (imports : List Import) (g : Graph) : Graph :=
  let h := addImports digest path imports g
  h.without (isStaleImport digest path (wantedImports imports)
    (h.edgesFrom importsFrom (fileId digest path) []))

variable {digest : Digest} {g : Graph} {path : String} {imports : List Import}

theorem textual_addImports (hg : g.Textual digest) :
    (addImports digest path imports g).Textual digest := by
  induction imports generalizing g with
  | nil => exact hg
  | cons i imports ih =>
    refine ih (hg.mergeRelationship (isText_fileKey path) (isText_fileKey i.source) ?_)
    simp [Datum.IsText]

theorem textual_synced (hg : g.Textual digest) : (synced digest path imports g).Textual digest :=
  (textual_addImports hg).without _

/-! ## The program -/

theorem gives_mergeImports :
    (mergeImports path imports).Gives (Answers digest) g (.ok imports.length)
      (addImports digest path imports g) := by
  induction imports generalizing g with
  | nil => exact gives_pure
  | cons i imports ih =>
    have hmerge : (mergeImport path i.source i.clause).Gives (Answers digest) g (.ok true) _ :=
      gives_mergeImport (only_answer rfl)
    exact hmerge.bind (ih.bind gives_pure)

theorem deletesUnwanted_imports (path : String) (wanted : List (String × Datum)) :
    DeletesUnwanted wanted (fun e ↦ propertyOf "clause" e.properties)
      (fun e ↦ propertyOf "path" e.target) (fun clause target ↦ deleteImport path target clause)
      (deleteStaleImports path wanted) := ⟨rfl, fun _ _ ↦ rfl⟩

theorem gives_deleteStaleImports {wanted : List (String × Datum)} {edges : List Edge}
    (hedges : ∀ e ∈ edges, (propertyOf "clause" e.properties).IsScalar ∧
      (propertyOf "path" e.target).IsScalar) :
    (deleteStaleImports path wanted edges).Gives (Answers digest) g (.ok ())
      (g.without (isStaleImport digest path wanted edges)) := by
  refine (deletesUnwanted_imports path wanted).gives id (fun {clause target} _ ht g ↦ ?_)
    hedges g
  obtain ⟨n, hn⟩ := answer?_deleteRelationship digest g importsFrom fileLabel fileLabel
    (some [("clause", clause)]) (isScalar_fileKey (Datum.isScalar_text path)) (isScalar_fileKey ht)
  exact ⟨n, gives_deleteImport (only_answer hn)⟩

/-- Bringing the imports of a file up to date always succeeds. -/
theorem gives_syncImports (hg : g.Textual digest) :
    (syncImports path imports).Gives (Answers digest) g (.ok imports.length)
      (synced digest path imports g) := by
  have hh : (addImports digest path imports g).Textual digest := textual_addImports hg
  have hlist := answer?_findRelationships hh importsFrom fileLabel none
    (isScalar_fileKey (Datum.isScalar_text path))
  refine gives_mergeImports.bind ((gives_request (only_answer hlist)).attempt.bind ?_)
  refine (gives_deleteStaleImports fun e he ↦ ?_).bind gives_pure
  exact ⟨hh.isScalar_property he _, hh.isScalar_target he _⟩

/-! ## Which relationships are left -/

theorem importRelationship_type (p : String) (i : Import) :
    (importRelationship digest p i).type = importsFrom := rfl

theorem importRelationship_targetId (p : String) (i : Import) :
    (importRelationship digest p i).targetId = fileId digest i.source := rfl

theorem importRelationship_properties (p : String) (i : Import) :
    (importRelationship digest p i).properties = [("clause", .text i.clause)] := rfl

/-- Relationships of another type or from another file are none of the file's imports. -/
theorem isStaleImport_of_ne {wanted : List (String × Datum)} {edges : List Edge} {r : Relationship}
    (hr : r.type ≠ importsFrom ∨ r.sourceId ≠ fileId digest path) :
    isStaleImport digest path wanted edges r = false := by
  rw [isStaleImport, isUnwanted, List.any_eq_false]
  intro e _ hdoomed
  rw [Bool.and_eq_true, isBetween_iff] at hdoomed
  exact hr.elim (fun htype ↦ htype hdoomed.2.1) fun hsource ↦ hsource hdoomed.2.2.1

/-- The values on the edge of an import are wanted if the file has the import. -/
theorem wants_wantedImports {i : Import} :
    wants (wantedImports imports) (.text i.clause) (.text i.source) ↔ i ∈ imports := by
  rw [wants_text (by simp [wantedImports, Datum.IsText]), wantedImports, List.mem_map]
  constructor
  · rintro ⟨j, hj, heq⟩
    rw [Prod.mk.injEq, Datum.text.injEq] at heq
    exact Import.ext heq.1 heq.2 ▸ hj
  · exact fun hi ↦ ⟨i, hi, rfl⟩

section Injective

variable (hd : Function.Injective digest)

include hd

theorem importRelationship_inj {p p' : String} {i i' : Import} :
    importRelationship digest p i = importRelationship digest p' i' ↔ p = p' ∧ i = i' := by
  constructor
  · intro h
    have hpath := (fileId_inj hd).mp (congrArg Relationship.sourceId h)
    have hsource := (fileId_inj hd).mp (congrArg Relationship.targetId h)
    have hclause : i.clause = i'.clause := by
      simpa [importRelationship_properties] using congrArg Relationship.properties h
    exact ⟨hpath, Import.ext hclause hsource⟩
  · rintro ⟨rfl, rfl⟩
    rfl

theorem mem_addImports (hg : g.Textual digest) {r : Relationship} :
    r ∈ (addImports digest path imports g).relationships ↔
      r ∈ g.relationships ∨ ∃ i ∈ imports, r = importRelationship digest path i := by
  induction imports generalizing g with
  | nil => simp [addImports]
  | cons i imports ih =>
    have hstep : (g.mergeRelationship digest importsFrom fileLabel (fileKey (.text path)) fileLabel
        (fileKey (.text i.source)) [("clause", .text i.clause)]).Textual digest :=
      hg.mergeRelationship (isText_fileKey path) (isText_fileKey i.source) (by simp [Datum.IsText])
    have hmem : r ∈ (addImports digest path (i :: imports) g).relationships ↔ _ := ih hstep
    rw [hmem, hg.mem_relationships_mergeRelationship hd (fun _ ↦ Datum.IsText.isScalar)
      (by simp) (by simp), or_assoc, List.exists_mem_cons_iff]
    rfl

/-- The edge of an import is unwanted if the file does not have the import any more. -/
theorem isStaleImport_import (hg : g.Textual digest) {i : Import}
    (hi : importRelationship digest path i ∈ g.relationships) :
    isStaleImport digest path (wantedImports imports)
      (g.edgesFrom importsFrom (fileId digest path) []) (importRelationship digest path i)
      ↔ i ∉ imports := by
  rw [isStaleImport, isUnwanted, List.any_eq_true, ← wants_wantedImports (i := i)]
  constructor
  · rintro ⟨e, he, hdoomed⟩
    rw [Bool.and_eq_true, isBetween_iff] at hdoomed
    obtain ⟨hnot, -, -, htarget, hincludes⟩ := hdoomed
    -- The edge has the clause and the target of the import, so it is the import that is unwanted.
    have hkey := (nodeId_inj hd (isScalar_fileKey (Datum.isScalar_text i.source))
      (isScalar_fileKey (hg.isScalar_target he _)) htarget).2
    rw [sorted_fileKey, sorted_fileKey, fileKey, fileKey] at hkey
    have hpath : propertyOf "path" e.target = .text i.source := by simpa using hkey.symm
    have hclause : propertyOf "clause" e.properties = .text i.clause := by
      rw [importRelationship_properties, includes, List.all_cons, List.all_nil,
        Bool.and_true] at hincludes
      exact Datum.same_text_left.mp hincludes
    rw [hclause, hpath, Bool.not_eq_true'] at hnot
    rw [hnot]
    exact Bool.false_ne_true
  · intro hnot
    have htarget : g.propertiesAt (fileId digest i.source) = fileKey (.text i.source) :=
      hg.propertiesAt_file hd (hg.target_mem _ hi)
    refine ⟨⟨fileKey (.text i.source), [("clause", .text i.clause)]⟩, ?_, ?_⟩
    · exact mem_edgesFrom.mpr ⟨_, mem_outgoing.mpr ⟨hi, rfl, rfl, rfl⟩, by rw [← htarget]; rfl⟩
    · rw [Bool.and_eq_true, isBetween_iff, Bool.not_eq_true']
      refine ⟨eq_false_of_ne_true hnot, rfl, rfl, rfl, ?_⟩
      rw [importRelationship_properties, includes, List.all_cons, List.all_nil, Bool.and_true]
      exact Datum.same_text_left.mpr rfl

theorem mem_of_mem_synced (hg : g.Textual digest) {r : Relationship}
    (hr : r ∈ (synced digest path imports g).relationships) :
    r ∈ g.relationships ∨ ∃ i ∈ imports, r = importRelationship digest path i :=
  (mem_addImports hd hg).mp (mem_relationships_without.mp hr).1

/-- **Syncing leaves the imports that the file has.** -/
theorem mem_synced_import (hg : g.Textual digest) {i : Import} :
    importRelationship digest path i ∈ (synced digest path imports g).relationships
      ↔ i ∈ imports := by
  rw [synced, mem_relationships_without]
  constructor
  · rintro ⟨hmem, hfresh⟩
    rw [isStaleImport_import hd (textual_addImports hg) hmem, not_not] at hfresh
    exact hfresh
  · intro hi
    have hmem : importRelationship digest path i
        ∈ (addImports digest path imports g).relationships :=
      (mem_addImports hd hg).mpr (Or.inr ⟨i, hi, rfl⟩)
    refine ⟨hmem, ?_⟩
    rw [isStaleImport_import hd (textual_addImports hg) hmem, not_not]
    exact hi

/-- Syncing concerns the imports of the file only. -/
theorem mem_synced_of_ne (hg : g.Textual digest) {r : Relationship}
    (hr : r.type ≠ importsFrom ∨ r.sourceId ≠ fileId digest path) :
    r ∈ (synced digest path imports g).relationships ↔ r ∈ g.relationships := by
  rw [synced, mem_relationships_without, isStaleImport_of_ne hr, mem_addImports hd hg]
  have hnot : ∀ i ∈ imports, r ≠ importRelationship digest path i := by
    rintro i - rfl
    exact hr.elim (fun h ↦ h rfl) fun h ↦ h rfl
  refine ⟨fun h ↦ h.1.resolve_right ?_, fun h ↦ ⟨Or.inl h, Bool.false_ne_true⟩⟩
  rintro ⟨i, hi, heq⟩
  exact hnot i hi heq

end Injective

end CodeAtlas.Indexing
