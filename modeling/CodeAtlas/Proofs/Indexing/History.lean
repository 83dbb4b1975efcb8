import CodeAtlas.Indexing.Directory
import CodeAtlas.Proofs.Files.RealPath
import CodeAtlas.Proofs.Indexing.Registration

/-!
# Histories of registrations

A history is a list of visits: each reads one file, as it lies in a tree at that time, and registers
what could be read. What the graph says after a history is a matter of the last version of each file
that could be read, and the invariant of the history says how. Registering a version

* replaces the imports of the file by those of the version and touches no other file's,
* replaces the calls of the functions that the version declares, and touches no other function's.

The first point makes the imports of a file those of its last version. The second one does less for
the calls. The calls of a function that the last version does not declare any more stay what they
were when the function was last seen, whatever has become of the imports that they were linked by.
-/

namespace CodeAtlas.Indexing

open CodeAtlas.Graph Program
open Syntax (Function Import Outline)

/-- A file of a tree is read and registered. -/
structure Visit where
  rules : IndexRules
  files : FileTree
  path : String

namespace Visit

/-- What reading the file came to. -/
def version (v : Visit) : Except Fault Outline := outlineAt v.rules.source v.files v.path

def register (v : Visit) : Program (Option Registration) := registerPath v.rules v.files v.path

theorem register_eq (v : Visit) : v.register = registerFile v.rules.registration v.version := rfl

end Visit

/-- The last version of a file that could be read. -/
def lastVersion (versions : List (Except Fault Outline)) (path : String) : Option Outline :=
  (versions.filterMap Except.toOption).reverse.find? fun o ↦ o.path == path

theorem lastVersion_append_error {versions : List (Except Fault Outline)} {e : Fault} :
    lastVersion (versions ++ [.error e]) = lastVersion versions := by
  funext path
  rw [lastVersion, List.filterMap_append]
  exact congrArg (fun os : List Outline ↦ os.reverse.find? fun o ↦ o.path == path)
    (List.append_nil _)

theorem lastVersion_append_ok {versions : List (Except Fault Outline)} {o : Outline}
    (path : String) :
    lastVersion (versions ++ [.ok o]) path
      = if o.path = path then some o else lastVersion versions path := by
  have hreverse : ((versions ++ [Except.ok o]).filterMap Except.toOption).reverse
      = o :: (versions.filterMap Except.toOption).reverse := by
    rw [List.filterMap_append, List.reverse_append]
    rfl
  rw [lastVersion, hreverse, List.find?_cons]
  by_cases h : o.path = path
  · rw [if_pos h, beq_iff_eq.mpr h]
  · rw [if_neg h, beq_eq_false_iff_ne.mpr h, lastVersion]

/-! ## Imports -/

/-- The imports in the graph are those of the last versions. -/
structure Recorded (digest : Digest) (versions : List (Except Fault Outline)) (g : Graph) :
    Prop where
  textual : g.Textual digest
  imports : ∀ r ∈ g.relationships, r.type = importsFrom → ∃ p i, r = importRelationship digest p i
  imports_iff : ∀ p i, importRelationship digest p i ∈ g.relationships ↔
    ∃ o, lastVersion versions p = some o ∧ i ∈ o.imports

variable {digest : Digest} {versions : List (Except Fault Outline)} {g : Graph}

theorem recorded_empty : Recorded digest [] .empty where
  textual := consistent_empty
  imports := fun _ h ↦ absurd h List.not_mem_nil
  imports_iff := fun _ _ ↦ ⟨fun h ↦ absurd h List.not_mem_nil, fun ⟨_, h, _⟩ ↦ absurd h (by
    simp [lastVersion])⟩

theorem Recorded.append_error (h : Recorded digest versions g) {e : Fault} :
    Recorded digest (versions ++ [.error e]) g where
  textual := h.textual
  imports := h.imports
  imports_iff := by
    rw [lastVersion_append_error]
    exact h.imports_iff

section Injective

variable (hd : Function.Injective digest)

include hd

theorem mem_prepared_import (hg : g.Textual digest) {o : Outline} {i : Import} :
    importRelationship digest o.path i ∈ (prepared digest o g).relationships ↔ i ∈ o.imports := by
  rw [prepared, relationships_addFunctions,
    mem_synced_import hd (hg.mergeNode (isText_fileKey o.path))]

theorem mem_prepared_of_ne (hg : g.Textual digest) {o : Outline} {r : Relationship}
    (hr : r.type ≠ importsFrom ∨ r.sourceId ≠ fileId digest o.path) :
    r ∈ (prepared digest o g).relationships ↔ r ∈ g.relationships := by
  rw [prepared, relationships_addFunctions,
    mem_synced_of_ne hd (hg.mergeNode (isText_fileKey o.path)) hr, relationships_mergeNode]

/-- Resolving calls touches no import. -/
theorem mem_resolvedAll_of_ne {imported : String → String → Option Datum} {linkLocal : Bool}
    {localNames : List String} {outages : Outages} {functions : List Function} {n : Nat}
    (hg : g.Textual digest) (himported : importedFrom digest g = imported) {r : Relationship}
    (hr : r.type ≠ calls) :
    r ∈ (resolvedAll digest linkLocal localNames imported outages functions n g).relationships ↔
      r ∈ g.relationships := by
  induction functions generalizing g n with
  | nil => exact Iff.rfl
  | cons f functions ih =>
    rw [resolvedAll, ih (textual_resolved hg himported) (importedFrom_resolved hg himported),
      mem_resolved hd hg himported]
    constructor
    · rintro ⟨hmem, -⟩
      refine hmem.resolve_right ?_
      rintro ⟨c, q, -, rfl⟩
      exact hr rfl
    · exact fun hmem ↦ ⟨Or.inl hmem, Or.inr fun hunwanted ↦ hr hunwanted.1⟩

/-- The imports are recorded before the calls are resolved. -/
theorem Recorded.prepared (h : Recorded digest versions g) {o : Outline} :
    Recorded digest (versions ++ [.ok o]) (prepared digest o g) where
  textual := textual_prepared h.textual
  imports r hr htype := by
    rw [Indexing.prepared, relationships_addFunctions] at hr
    rcases mem_of_mem_synced hd (h.textual.mergeNode (isText_fileKey o.path)) hr with hr | ⟨i, -, hr⟩
    · rw [relationships_mergeNode] at hr
      exact h.imports r hr htype
    · exact ⟨o.path, i, hr⟩
  imports_iff p i := by
    rw [lastVersion_append_ok]
    by_cases hp : o.path = p
    · subst hp
      rw [if_pos rfl, mem_prepared_import hd h.textual]
      simp
    · rw [if_neg hp, mem_prepared_of_ne hd h.textual, h.imports_iff]
      exact Or.inr fun hsource ↦ hp ((fileId_inj hd).mp hsource).symm

/-- Resolving calls leaves the record of the imports as it is. -/
theorem Recorded.resolvedAll (h : Recorded digest versions g) {linkLocal : Bool}
    {localNames : List String} {outages : Outages} {functions : List Function} {n : ℕ} :
    Recorded digest versions
      (resolvedAll digest linkLocal localNames (importedFrom digest g) outages functions n g) where
  textual := textual_resolvedAll h.textual rfl
  imports r hr htype := by
    have hcalls : r.type ≠ calls := fun hcalls ↦ absurd (htype.symm.trans hcalls) (by decide)
    rw [mem_resolvedAll_of_ne hd h.textual rfl hcalls] at hr
    exact h.imports r hr htype
  imports_iff p i := by
    rw [mem_resolvedAll_of_ne hd h.textual rfl (by rw [importRelationship_type]; decide)]
    exact h.imports_iff p i

theorem Recorded.registered (h : Recorded digest versions g) {linkLocal : Bool} {o : Outline} :
    Recorded digest (versions ++ [.ok o]) (registered digest linkLocal o g) :=
  (h.prepared hd).resolvedAll hd

/-- A visit brings the record up to date, whether or not the file can be read. -/
theorem Recorded.ends_register (h : Recorded digest versions g) (v : Visit) :
    v.register.Ends (Answers digest) (fun _ k ↦ Recorded digest (versions ++ [v.version]) k) g := by
  rw [Visit.register_eq]
  cases v.version with
  | error e =>
    refine ends_registerFile_error.mono ?_
    rintro x k rfl
    exact h.append_error
  | ok o =>
    refine (ends_registerFile h.textual).mono ?_
    rintro x k ⟨-, rfl⟩
    exact h.registered hd

end Injective

/-- The edges of a file's imports, as they are listed. -/
def edgeOf (i : Import) : Edge := ⟨fileKey (.text i.source), [("clause", .text i.clause)]⟩

theorem propertyOf_clause_edgeOf (i : Import) :
    propertyOf "clause" (edgeOf i).properties = .text i.clause := rfl

theorem propertyOf_path_edgeOf (i : Import) :
    propertyOf "path" (edgeOf i).target = .text i.source := rfl

theorem edgeOf_injective : Function.Injective edgeOf := by
  rintro ⟨c, s⟩ ⟨c', s'⟩ h
  simp_all [edgeOf, fileKey]

theorem Recorded.mem_outgoing_iff (hd : Function.Injective digest) (h : Recorded digest versions g)
    {path : String} {r : Relationship} :
    r ∈ g.outgoing importsFrom (fileId digest path) [] ↔
      ∃ o, lastVersion versions path = some o ∧ ∃ i ∈ o.imports,
        r = importRelationship digest path i := by
  rw [mem_outgoing]
  constructor
  · rintro ⟨hr, htype, hsource, -⟩
    obtain ⟨p, i, rfl⟩ := h.imports r hr htype
    obtain rfl := (fileId_inj hd).mp hsource
    obtain ⟨o, ho, hi⟩ := (h.imports_iff p i).mp hr
    exact ⟨o, ho, i, hi, rfl⟩
  · rintro ⟨o, ho, i, hi, rfl⟩
    exact ⟨(h.imports_iff path i).mpr ⟨o, ho, hi⟩, rfl, rfl, rfl⟩

/-- The edges that are listed for a file are those of its last version, and each is listed once. -/
theorem Recorded.edgesFrom (hd : Function.Injective digest) (h : Recorded digest versions g)
    (path : String) :
    (g.edgesFrom importsFrom (fileId digest path) []).Nodup ∧
      ∀ e, e ∈ g.edgesFrom importsFrom (fileId digest path) [] ↔
        ∃ o, lastVersion versions path = some o ∧ ∃ i ∈ o.imports, e = edgeOf i := by
  have hedge : ∀ i, importRelationship digest path i
      ∈ g.outgoing importsFrom (fileId digest path) [] →
      (⟨g.propertiesAt (importRelationship digest path i).targetId,
        (importRelationship digest path i).properties⟩ : Edge) = edgeOf i := by
    intro i hi
    rw [edgeOf, importRelationship_targetId,
      h.textual.propertiesAt_file hd (h.textual.target_mem _ (mem_outgoing.mp hi).1)]
    rfl
  constructor
  · refine List.Nodup.map_on ?_ ((h.textual.relationships_nodup.of_map _).filter _)
    intro r hr q hq heq
    obtain ⟨-, -, i, -, rfl⟩ := (h.mem_outgoing_iff hd).mp hr
    obtain ⟨-, -, j, -, rfl⟩ := (h.mem_outgoing_iff hd).mp hq
    rw [hedge i hr, hedge j hq] at heq
    rw [edgeOf_injective heq]
  · intro e
    rw [mem_edgesFrom]
    constructor
    · rintro ⟨r, hr, rfl⟩
      obtain ⟨o, ho, i, hi, rfl⟩ := (h.mem_outgoing_iff hd).mp hr
      exact ⟨o, ho, i, hi, hedge i hr⟩
    · rintro ⟨o, ho, i, hi, rfl⟩
      have hmem := (h.mem_outgoing_iff hd).mpr ⟨o, ho, i, hi, rfl⟩
      exact ⟨_, hmem, (hedge i hmem).symm⟩

/-! ## A file on its own -/

/-- A visit to a file that is alone in its tree. Nothing is queued, and calls within the file are
not linked. -/
def loneVisit (text : String) : Visit where
  rules :=
    { source := { known := [".ts"], default := ".ts", refusesMalformed := true }
      registration := { linkLocal := false, enriches := false, reparse := false }
      maxFileSize := 1048576
      concurrency := 1 }
  files := .directory [("a.ts", .file text.toUTF8)]
  path := "/a.ts"

theorem version_loneVisit {text : String} {o : Outline}
    (h : ((loneVisit text).rules.source.outline
      (fun path ↦ FileTree.pathOf (FileTree.plainPlace path)) "/a.ts" text.toUTF8.toList).toOption
        = some o) : (loneVisit text).version = .ok o := by
  have hfiles : (loneVisit text).files.linkCount = 0 := rfl
  have hplace : FileTree.plainPlace "/a.ts" = ["a.ts"] := by decide +kernel
  have hpath : FileTree.pathOf ["a.ts"] = "/a.ts" := by decide +kernel
  have hread : (loneVisit text).files.read "/a.ts" = .ok text.toUTF8 := by
    rw [FileTree.read, if_neg (by decide +kernel), FileTree.placeOf_of_linkless hfiles, hplace]
    rfl
  have hstart : (loneVisit text).path = "/a.ts" := rfl
  rw [Visit.version, hstart, outlineAt, if_neg (by decide +kernel),
    FileTree.realPath_of_linkless hfiles]
  dsimp only
  rw [hplace, hpath, hread]
  dsimp only
  cases houtline : (loneVisit text).rules.source.outline
      (fun path ↦ FileTree.pathOf (FileTree.plainPlace path)) "/a.ts" text.toUTF8.toList with
  | ok p =>
    rw [houtline] at h
    exact congrArg Except.ok (Option.some.inj h)
  | error e =>
    rw [houtline] at h
    exact absurd h (by simp [Except.toOption])

/-! ## The imports after a history -/

section Runs

variable {σ : Type} {store : σ → Store} {respond : Responder σ} {s : σ}

/-- **The imports of a file** after any history are those of its last version that could be read,
and each is there once. The digest has no collision among the texts of the run and that of the file.
-/
theorem listed_imports_of_history (hserves : Serves digest store respond)
    (hs : (store s).Holds .empty) (visits : List Visit) (path : String)
    (hdigest : Collisionless digest (nodeText fileLabel (fileKey (.text path)) ::
      (traceAll respond (visits.map Visit.register) s).flatMap (Request.hashed digest))) :
    ∃ edges, (store (runAll respond (visits.map Visit.register) s).2).findRelationships digest
        importsFrom fileLabel (fileKey (.text path)) [] = .ok edges ∧ edges.Nodup ∧
      ∀ e, e ∈ edges ↔
        ∃ o, lastVersion (visits.map Visit.version) path = some o ∧ ∃ i ∈ o.imports, e = edgeOf i := by
  obtain ⟨digest', hd, hagree⟩ := exists_injective_eqOn hdigest
  obtain ⟨g, hg, hrecorded⟩ := hserves.runAll Visit.register
    (fun past g ↦ Recorded digest' (past.map Visit.version) g) [] visits
    (fun past v _ g hrecorded ↦ by
      rw [List.map_append, List.map_singleton]
      exact hrecorded.ends_register hd v)
    (fun r hr t ht ↦ hagree t (List.mem_cons_of_mem _ (List.mem_flatMap.mpr ⟨r, hr, ht⟩)))
    hs recorded_empty
  have hlisted : (Request.findRelationships importsFrom fileLabel (fileKey (.text path)) none).hashed
      digest = [nodeText fileLabel (fileKey (.text path))] := rfl
  have hsame : ∀ t ∈ (Request.findRelationships importsFrom fileLabel (fileKey (.text path))
      none).hashed digest, digest t = digest' t := by
    rw [hlisted, List.forall_mem_singleton]
    exact hagree _ List.mem_cons_self
  have hanswer := answer?_store digest hg
    (.findRelationships importsFrom fileLabel (fileKey (.text path)) none)
  rw [answer?_congr hsame, answer?_findRelationships hrecorded.textual importsFrom fileLabel none
    (isScalar_fileKey (Datum.isScalar_text path))] at hanswer
  obtain ⟨t, ht, -⟩ := hanswer
  obtain ⟨hnodup, hmem⟩ := hrecorded.edgesFrom hd path
  exact ⟨_, congrArg Prod.fst (Option.some.inj ht), hnodup, hmem⟩

end Runs

/-- An import that is replaced by another one is gone. -/
theorem listed_imports_after_edit :
    ∃ edges, (runAll Rehearsal.serve
        ([loneVisit "import \x7bb\x7d from './b';", loneVisit "import \x7bc\x7d from './c';"].map
          Visit.register) (Rehearsal.new {} .empty)).2.store.findRelationships Text.Digest.ofText
          importsFrom fileLabel (fileKey (.text "/a.ts")) [] = .ok edges ∧ edges.Nodup ∧
      ∀ e, e ∈ edges ↔ e = edgeOf ⟨"c", "/c.ts"⟩ := by
  have hbefore : (loneVisit "import \x7bb\x7d from './b';").version
      = .ok ⟨"/a.ts", [⟨"b", "/b.ts"⟩], []⟩ := version_loneVisit (by decide +kernel)
  have hafter : (loneVisit "import \x7bc\x7d from './c';").version
      = .ok ⟨"/a.ts", [⟨"c", "/c.ts"⟩], []⟩ := version_loneVisit (by decide +kernel)
  obtain ⟨edges, hedges, hnodup, hmem⟩ := listed_imports_of_history Rehearsal.serves
    (s := Rehearsal.new {} .empty) Store.holds_empty
    [loneVisit "import \x7bb\x7d from './b';", loneVisit "import \x7bc\x7d from './c';"] "/a.ts" (by
      rw [List.map_cons, List.map_cons, List.map_nil, Visit.register_eq, Visit.register_eq, hbefore,
        hafter]
      decide +kernel)
  refine ⟨edges, hedges, hnodup, fun e ↦ ?_⟩
  rw [hmem, List.map_cons, List.map_cons, List.map_nil, hbefore, hafter]
  simp [lastVersion, Except.toOption]

end CodeAtlas.Indexing
