import CodeAtlas.Proofs.Indexing.ImportOrder
import CodeAtlas.Proofs.Indexing.ImportRequests
import CodeAtlas.Proofs.Program.Refusals

/-!
# Imports and calls as edges

Imports and calls are kept up to date in the same way, so here they are of one type: an edge leaves a
file or a function, and it leads to what has some name in the file at some path.

Of a list of writes only those that succeeded change the graph. Whether an edge is there afterwards
can be told from the writes: a merge that succeeded brings it, a deletion that succeeded takes it
away, and no other write concerns it.
-/

namespace CodeAtlas

open CodeAtlas.Graph (importsFrom calls fileLabel fileKey functionLabel functionKey fileId functionId)
open Indexing (importRelationship callRelationship)

/-- Where an edge starts: at a file that imports, or at a function that calls. -/
inductive EdgeSource where
  | file (path : String)
  | function (name path : String)
  deriving DecidableEq

/-- An import or a call of what has the name in the file at the path. -/
structure CodeEdge where
  source : EdgeSource
  name : String
  path : String
  deriving DecidableEq

namespace EdgeSource

/-- The type of the edges that start here. -/
def type : EdgeSource → String
  | file _ => importsFrom
  | function .. => calls

def id (digest : Digest) : EdgeSource → String
  | file path => fileId digest path
  | function name path => functionId digest name path

end EdgeSource

theorem importsFrom_ne_calls : importsFrom ≠ calls := by decide

namespace CodeEdge

def relationship (digest : Digest) (e : CodeEdge) : Relationship :=
  match e.source with
  | .file path => importRelationship digest path ⟨e.name, e.path⟩
  | .function name path => callRelationship digest name path e.name e.path

def mergeRequest (e : CodeEdge) : Request :=
  match e.source with
  | .file path => Indexing.mergeRequest path ⟨e.name, e.path⟩
  | .function name path =>
    .mergeRelationship calls functionLabel (functionKey (.text name) (.text path)) functionLabel
      (functionKey (.text e.name) (.text e.path)) none

def deleteRequest (e : CodeEdge) : Request :=
  match e.source with
  | .file path => Indexing.deleteRequest path ⟨e.name, e.path⟩
  | .function name path =>
    .deleteRelationship calls functionLabel (functionKey (.text name) (.text path)) functionLabel
      (functionKey (.text e.name) (.text e.path)) none

variable {digest : Digest} {e e' : CodeEdge}

theorem mergeRequest_inj : e.mergeRequest = e'.mergeRequest ↔ e = e' := by
  refine ⟨fun h ↦ ?_, fun h ↦ h ▸ rfl⟩
  obtain ⟨source, name, path⟩ := e
  obtain ⟨source', name', path'⟩ := e'
  cases source <;> cases source' <;>
    simp_all [mergeRequest, fileKey, functionKey, importsFrom, calls]

theorem deleteRequest_inj : e.deleteRequest = e'.deleteRequest ↔ e = e' := by
  refine ⟨fun h ↦ ?_, fun h ↦ h ▸ rfl⟩
  obtain ⟨source, name, path⟩ := e
  obtain ⟨source', name', path'⟩ := e'
  cases source <;> cases source' <;>
    simp_all [deleteRequest, fileKey, functionKey, importsFrom, calls]

theorem mergeRequest_ne_deleteRequest : e.mergeRequest ≠ e'.deleteRequest := by
  obtain ⟨source, name, path⟩ := e
  obtain ⟨source', name', path'⟩ := e'
  cases source <;> cases source' <;> simp [mergeRequest, deleteRequest]

theorem mergeNode_ne (e : CodeEdge) (label : String) (key : Props) :
    .mergeNode label key ≠ e.deleteRequest ∧ .mergeNode label key ≠ e.mergeRequest := by
  obtain ⟨source, name, path⟩ := e
  cases source <;> simp [mergeRequest, deleteRequest]

theorem relationship_type (digest : Digest) (e : CodeEdge) :
    (e.relationship digest).type = e.source.type := by
  obtain ⟨source, name, path⟩ := e
  cases source <;> rfl

theorem relationship_sourceId (digest : Digest) (e : CodeEdge) :
    (e.relationship digest).sourceId = e.source.id digest := by
  obtain ⟨source, name, path⟩ := e
  cases source <;> rfl

theorem relationship_inj (hd : Function.Injective digest) :
    e.relationship digest = e'.relationship digest ↔ e = e' := by
  refine ⟨fun h ↦ ?_, fun h ↦ h ▸ rfl⟩
  have htype := congrArg Relationship.type h
  rw [relationship_type, relationship_type] at htype
  obtain ⟨source, name, path⟩ := e
  obtain ⟨source', name', path'⟩ := e'
  cases source with
  | file q =>
    cases source' with
    | file q' =>
      obtain ⟨rfl, himport⟩ := (Indexing.importRelationship_inj hd).mp h
      obtain ⟨rfl, rfl⟩ := Syntax.Import.mk.inj himport
      rfl
    | function name' q' => exact absurd htype importsFrom_ne_calls
  | function caller q =>
    cases source' with
    | file q' => exact absurd htype importsFrom_ne_calls.symm
    | function caller' q' =>
      obtain ⟨rfl, rfl, rfl, rfl⟩ := (Indexing.callRelationship_inj hd).mp h
      rfl

end CodeEdge

/-- The request merges the edge or deletes it. -/
def Request.Concerns (r : Request) (e : CodeEdge) : Prop := r = e.mergeRequest ∨ r = e.deleteRequest

theorem CodeEdge.concerns_mergeRequest {e e' : CodeEdge} : e.mergeRequest.Concerns e' ↔ e' = e := by
  rw [Request.Concerns, mergeRequest_inj, or_iff_left mergeRequest_ne_deleteRequest, eq_comm]

theorem CodeEdge.concerns_deleteRequest {e e' : CodeEdge} :
    e.deleteRequest.Concerns e' ↔ e' = e := by
  rw [Request.Concerns, deleteRequest_inj, or_iff_right mergeRequest_ne_deleteRequest.symm, eq_comm]

/-- A write of a node of texts, or of an edge. -/
inductive Request.IsCodeWrite : Request → Prop
  | node (label : String) {key : Props} (hkey : ∀ e ∈ key, e.2.IsText) :
      IsCodeWrite (.mergeNode label key)
  | merge (e : CodeEdge) : IsCodeWrite e.mergeRequest
  | delete (e : CodeEdge) : IsCodeWrite e.deleteRequest

theorem Request.IsCodeWrite.isWrite {r : Request} (hr : r.IsCodeWrite) : r.isWrite = true := by
  cases hr with
  | node label hkey => rfl
  | merge e | delete e =>
    obtain ⟨s, name, path⟩ := e
    cases s <;> rfl

theorem Request.IsCodeWrite.isIndexing {r : Request} (hr : r.IsCodeWrite) : r.IsIndexing := by
  cases hr with
  | node label hkey => exact hkey
  | merge e =>
    obtain ⟨s, name, path⟩ := e
    cases s with
    | file p => exact Or.inl ⟨p, _, rfl⟩
    | function caller p => exact Or.inr ⟨caller, p, _, _, rfl⟩
  | delete e =>
    obtain ⟨s, name, path⟩ := e
    cases s <;> trivial

namespace Graph

/-! ## What is seen of edges -/

/-- Does the relationship leave the source, with the type of the edges that start there? -/
def leaves (g : Graph) (s : EdgeSource) (r : Relationship) : Bool :=
  match s with
  | .file path => r.type == importsFrom && (g.node? r.sourceId).any (·.isFile path)
  | .function name path => r.type == calls && (g.node? r.sourceId).any (·.isFunction name path)

def isEdge (g : Graph) (e : CodeEdge) (r : Relationship) : Bool :=
  match e.source with
  | .file path => g.isImport path e.name e.path r
  | .function name path => g.isCall name path e.name e.path r

/-- The edge is in the graph. -/
def Shows (g : Graph) (e : CodeEdge) : Prop := ∃ r ∈ g.relationships, g.isEdge e r

/-- The relationships that leave none of the sources. -/
def elsewhere (g : Graph) (sources : List EdgeSource) : List Relationship :=
  g.relationships.filter fun r ↦ !sources.any fun s ↦ g.leaves s r

variable {digest : Digest} {g : Graph} {r : Relationship}

namespace Indexed

variable (hd : Function.Injective digest)

include hd

theorem leaves_iff (hg : g.Indexed digest) (hr : r ∈ g.relationships) {s : EdgeSource} :
    g.leaves s r ↔ r.type = s.type ∧ r.sourceId = s.id digest := by
  obtain ⟨n, hn⟩ := hg.textual.source_mem r hr
  cases s with
  | file path =>
    rw [leaves, Bool.and_eq_true, beq_iff_eq, hn, Option.any_some, hg.textual.isFile_iff hd hn]
    exact Iff.rfl
  | function name path =>
    rw [leaves, Bool.and_eq_true, beq_iff_eq, hn, Option.any_some, hg.textual.isFunction_iff hd hn]
    exact Iff.rfl

/-- What leaves a source is an edge. -/
theorem exists_eq_relationship (hg : g.Indexed digest) (hr : r ∈ g.relationships) {s : EdgeSource}
    (hleaves : r.type = s.type ∧ r.sourceId = s.id digest) :
    ∃ name path, r = (⟨s, name, path⟩ : CodeEdge).relationship digest := by
  obtain ⟨htype, hsource⟩ := hleaves
  cases s with
  | file path =>
    obtain ⟨p, i, rfl⟩ := hg.imports r hr htype
    obtain rfl := (fileId_inj hd).mp hsource
    exact ⟨i.clause, i.source, rfl⟩
  | function name path =>
    obtain ⟨name', path', callee, target, rfl⟩ := hg.calls r hr htype
    obtain ⟨rfl, rfl⟩ := (functionId_inj hd).mp hsource
    exact ⟨callee, target, rfl⟩

theorem isEdge_iff (hg : g.Indexed digest) (hr : r ∈ g.relationships) {e : CodeEdge} :
    g.isEdge e r ↔ r = e.relationship digest := by
  obtain ⟨s, name, path⟩ := e
  cases s with
  | file p =>
    rw [isEdge, hg.textual.isImport_iff hd hr]
    constructor
    · rintro ⟨htype, hsource, htarget, hclause⟩
      obtain ⟨p', i, rfl⟩ := hg.imports r hr htype
      obtain rfl := (fileId_inj hd).mp hsource
      obtain rfl : i.source = path := (fileId_inj hd).mp htarget
      obtain rfl : i.clause = name := Datum.text.inj hclause
      rfl
    · rintro rfl
      exact ⟨rfl, rfl, rfl, rfl⟩
  | function caller p =>
    rw [isEdge, hg.textual.isCall_iff hd hr]
    constructor
    · rintro ⟨htype, hsource, htarget⟩
      obtain ⟨name', path', callee, target, rfl⟩ := hg.calls r hr htype
      obtain ⟨rfl, rfl⟩ := (functionId_inj hd).mp hsource
      obtain ⟨rfl, rfl⟩ := (functionId_inj hd).mp htarget
      rfl
    · rintro rfl
      exact ⟨rfl, rfl, rfl⟩

theorem shows_iff (hg : g.Indexed digest) {e : CodeEdge} :
    g.Shows e ↔ e.relationship digest ∈ g.relationships := by
  constructor
  · rintro ⟨r, hr, hedge⟩
    rw [hg.isEdge_iff hd hr] at hedge
    exact hedge ▸ hr
  · exact fun hmem ↦ ⟨_, hmem, (hg.isEdge_iff hd hmem).mpr rfl⟩

theorem elsewhere_eq (hg : g.Indexed digest) (sources : List EdgeSource) :
    g.elsewhere sources = g.relationships.filter fun r ↦
      !sources.any fun s ↦ r.type == s.type && r.sourceId == s.id digest := by
  refine List.filter_congr fun r hr ↦ congrArg not (List.any_congr rfl fun s ↦ ?_)
  rw [Bool.eq_iff_iff, hg.leaves_iff hd hr, Bool.and_eq_true, beq_iff_eq, beq_iff_eq]

end Indexed

/-! ## Answers to writes -/

/-- The graph after the answer to a request. -/
def answered (digest : Digest) (r : Request) (g : Graph) : Graph :=
  match g.answer? digest r with
  | some (_, h) => h
  | none => g

theorem answered_of_answer? {r : Request} {x : Except Fault r.Reply} {h : Graph}
    (hx : g.answer? digest r = some (x, h)) : g.answered digest r = h := by
  rw [answered, hx]

theorem answer?_mergeNode {label : String} {key : Props} (hkey : ∀ e ∈ key, e.2.IsText) :
    g.answer? digest (.mergeNode label key)
      = some (.ok (nodeId digest label key), g.mergeNode digest label key) := by
  rw [answer?, if_pos (isWritable_map_of_scalar fun e he ↦ (hkey e he).isScalar)]

theorem answered_mergeNode {label : String} {key : Props} (hkey : ∀ e ∈ key, e.2.IsText) :
    g.answered digest (.mergeNode label key) = g.mergeNode digest label key :=
  answered_of_answer? (answer?_mergeNode hkey)

/-- A deletion is about no other relationship than that of its edge. -/
theorem Indexed.exists_answer?_deleteRequest (hd : Function.Injective digest) (e : CodeEdge)
    (hg : g.Indexed digest) : ∃ a doomed,
      g.answer? digest e.deleteRequest = some (.ok a, g.without doomed) ∧
      ∀ r ∈ g.relationships, doomed r ↔ r = e.relationship digest := by
  obtain ⟨s, name, path⟩ := e
  cases s with
  | file p =>
    obtain ⟨n, hn⟩ := answer?_deleteRelationship digest g importsFrom fileLabel fileLabel
      (some [("clause", .text name)]) (isScalar_fileKey (Datum.isScalar_text p))
      (isScalar_fileKey (Datum.isScalar_text path))
    refine ⟨n, _, hn, fun r hr ↦ ?_⟩
    rw [isBetween_iff]
    constructor
    · rintro ⟨htype, hsource, htarget, hincludes⟩
      obtain ⟨p', i, rfl⟩ := hg.imports r hr htype
      obtain rfl : p' = p := (fileId_inj hd).mp hsource
      obtain rfl : i.source = path := (fileId_inj hd).mp htarget
      rw [Indexing.importRelationship_properties, includes, Option.getD_some, List.all_cons,
        List.all_nil, Bool.and_true] at hincludes
      have hclause : Datum.text name = .text i.clause := Datum.same_text_left.mp hincludes
      obtain rfl := Datum.text.inj hclause
      rfl
    · rintro rfl
      refine ⟨rfl, rfl, rfl, ?_⟩
      rw [CodeEdge.relationship, Indexing.importRelationship_properties, includes, Option.getD_some,
        List.all_cons, List.all_nil, Bool.and_true]
      exact Datum.same_text_left.mpr rfl
  | function caller p =>
    obtain ⟨n, hn⟩ := answer?_deleteRelationship digest g Graph.calls functionLabel functionLabel none
      (isScalar_functionKey (Datum.isScalar_text caller) (Datum.isScalar_text p))
      (isScalar_functionKey (Datum.isScalar_text name) (Datum.isScalar_text path))
    refine ⟨n, _, hn, fun r hr ↦ ?_⟩
    rw [isBetween_iff]
    constructor
    · rintro ⟨htype, hsource, htarget, -⟩
      obtain ⟨name', path', callee, target, rfl⟩ := hg.calls r hr htype
      obtain ⟨rfl, rfl⟩ := (functionId_inj hd).mp hsource
      obtain ⟨rfl, rfl⟩ := (functionId_inj hd).mp htarget
      rfl
    · rintro rfl
      exact ⟨rfl, rfl, rfl, includes_nil _⟩

theorem Textual.exists_answer?_mergeRequest (hd : Function.Injective digest) (e : CodeEdge)
    (hg : g.Textual digest) : ∃ a h, g.answer? digest e.mergeRequest = some (.ok a, h) ∧
      (∀ r, r ∈ h.relationships ↔ r ∈ g.relationships ∨ r = e.relationship digest) ∧
      ∀ p : Relationship → Bool, p (e.relationship digest) = false →
        h.relationships.filter p = g.relationships.filter p := by
  obtain ⟨s, name, path⟩ := e
  cases s with
  | file q =>
    refine ⟨_, _, answer?_mergeRelationship digest g importsFrom fileLabel fileLabel _
      (isScalar_fileKey (Datum.isScalar_text q)) (isScalar_fileKey (Datum.isScalar_text path))
      (by simp [Datum.IsScalar]), fun r ↦ ?_, fun p hp ↦ Indexing.filter_mergeRelationship hp⟩
    exact hg.mem_relationships_mergeRelationship hd (fun _ ↦ Datum.IsText.isScalar)
      (by simp) (by simp)
  | function caller q =>
    refine ⟨_, _, answer?_mergeRelationship digest g calls functionLabel functionLabel none
      (isScalar_functionKey (Datum.isScalar_text caller) (Datum.isScalar_text q))
      (isScalar_functionKey (Datum.isScalar_text name) (Datum.isScalar_text path)) (by simp),
      fun r ↦ ?_, fun p hp ↦ Indexing.filter_mergeRelationship hp⟩
    exact hg.mem_relationships_mergeRelationship hd (fun _ ↦ Datum.IsText.isScalar)
      (by simp) (by simp)

variable {w : Request}

section Answered

variable (hd : Function.Injective digest) (hg : g.Indexed digest) (hw : w.IsCodeWrite)

include hd hg hw

theorem exists_answer?_of_isCodeWrite :
    ∃ a, g.answer? digest w = some (.ok a, g.answered digest w) := by
  cases hw with
  | @node label key hkey =>
    refine ⟨nodeId digest label key, ?_⟩
    rw [answered_mergeNode hkey, answer?_mergeNode hkey]
  | merge e =>
    obtain ⟨a, h, hanswer, -⟩ := hg.textual.exists_answer?_mergeRequest hd e
    exact ⟨a, (answered_of_answer? hanswer).symm ▸ hanswer⟩
  | delete e =>
    obtain ⟨a, doomed, hanswer, -⟩ := hg.exists_answer?_deleteRequest hd e
    exact ⟨a, (answered_of_answer? hanswer).symm ▸ hanswer⟩

theorem indexed_answered : (g.answered digest w).Indexed digest := by
  obtain ⟨a, hanswer⟩ := exists_answer?_of_isCodeWrite hd hg hw
  refine hg.answers hd hw.isIndexing (x := .ok a) ?_
  rw [Answers, hanswer]
  exact ⟨rfl, rfl⟩

/-- **A write** brings the edge that it merges and takes the edge that it deletes away. -/
theorem mem_answered (e : CodeEdge) :
    e.relationship digest ∈ (g.answered digest w).relationships ↔
      (e.relationship digest ∈ g.relationships ∧ w ≠ e.deleteRequest) ∨ w = e.mergeRequest := by
  cases hw with
  | @node label key hkey =>
    obtain ⟨hdelete, hmerge⟩ := e.mergeNode_ne label key
    rw [answered_mergeNode hkey, relationships_mergeNode, and_iff_left hdelete, or_iff_left hmerge]
  | merge e' =>
    obtain ⟨a, h, hanswer, hmem, -⟩ := hg.textual.exists_answer?_mergeRequest hd e'
    rw [answered_of_answer? hanswer, hmem, CodeEdge.relationship_inj hd, CodeEdge.mergeRequest_inj,
      eq_comm, and_iff_left CodeEdge.mergeRequest_ne_deleteRequest]
  | delete e' =>
    obtain ⟨a, doomed, hanswer, hdoomed⟩ := hg.exists_answer?_deleteRequest hd e'
    rw [answered_of_answer? hanswer, mem_relationships_without, ne_eq, CodeEdge.deleteRequest_inj,
      or_iff_left CodeEdge.mergeRequest_ne_deleteRequest.symm]
    refine and_congr_right fun hmem ↦ not_congr ?_
    rw [hdoomed _ hmem, CodeEdge.relationship_inj hd, eq_comm]

theorem filter_answered {p : Relationship → Bool}
    (hp : ∀ e, w.Concerns e → p (e.relationship digest) = false) :
    (g.answered digest w).relationships.filter p = g.relationships.filter p := by
  cases hw with
  | node label hkey => rw [answered_mergeNode hkey, relationships_mergeNode]
  | merge e =>
    obtain ⟨a, h, hanswer, -, hfilter⟩ := hg.textual.exists_answer?_mergeRequest hd e
    rw [answered_of_answer? hanswer]
    exact hfilter p (hp e (Or.inl rfl))
  | delete e =>
    obtain ⟨a, doomed, hanswer, hdoomed⟩ := hg.exists_answer?_deleteRequest hd e
    rw [answered_of_answer? hanswer]
    refine Indexing.filter_without fun r hr hr' ↦ ?_
    rw [(hdoomed r hr).mp hr']
    exact hp e (Or.inr rfl)

end Answered

/-! ## Lists of writes -/

/-- The graph after a write. One that did not succeed changes nothing. -/
def written (digest : Digest) (g : Graph) (w : Write) : Graph :=
  if w.succeeded then g.answered digest w.request else g

/-- The graph after writes. -/
def afterWrites (digest : Digest) (g : Graph) (ws : List Write) : Graph :=
  ws.foldl (written digest) g

theorem afterWrites_append (g : Graph) (ws ws' : List Write) :
    g.afterWrites digest (ws ++ ws') = (g.afterWrites digest ws).afterWrites digest ws' :=
  List.foldl_append

section Written

variable {w : Write} (hd : Function.Injective digest) (hg : g.Indexed digest)
  (hw : w.request.IsCodeWrite)

include hd hg hw

theorem indexed_written : (g.written digest w).Indexed digest := by
  rw [written]
  split
  · exact indexed_answered hd hg hw
  · exact hg

theorem mem_written (e : CodeEdge) :
    e.relationship digest ∈ (g.written digest w).relationships ↔
      (e.relationship digest ∈ g.relationships ∧ w ≠ ⟨e.deleteRequest, true⟩) ∨
        w = ⟨e.mergeRequest, true⟩ := by
  obtain ⟨r, succeeded⟩ := w
  cases succeeded with
  | true =>
    rw [written, if_pos rfl, mem_answered hd hg hw]
    simp
  | false =>
    rw [written, if_neg Bool.false_ne_true]
    simp

theorem filter_written {p : Relationship → Bool}
    (hp : ∀ e, w.request.Concerns e → p (e.relationship digest) = false) :
    (g.written digest w).relationships.filter p = g.relationships.filter p := by
  rw [written]
  split
  · exact filter_answered hd hg hw hp
  · rfl

end Written

section AfterWrites

variable {ws : List Write} (hd : Function.Injective digest) (hg : g.Indexed digest)
  (hws : ∀ w ∈ ws, w.request.IsCodeWrite)

include hd hg hws

theorem indexed_afterWrites : (g.afterWrites digest ws).Indexed digest := by
  induction ws generalizing g with
  | nil => exact hg
  | cons w ws ih =>
    rw [List.forall_mem_cons] at hws
    exact ih (indexed_written hd hg hws.1) hws.2

/-- Relationships that no write is about stay where they are. -/
theorem filter_afterWrites {p : Relationship → Bool}
    (hp : ∀ w ∈ ws, ∀ e, w.request.Concerns e → p (e.relationship digest) = false) :
    (g.afterWrites digest ws).relationships.filter p = g.relationships.filter p := by
  induction ws generalizing g with
  | nil => rfl
  | cons w ws ih =>
    rw [List.forall_mem_cons] at hws hp
    have hnext := ih (indexed_written hd hg hws.1) hws.2 hp.2
    exact hnext.trans (filter_written hd hg hws.1 hp.1)

variable {e : CodeEdge}

/-- An edge that no deletion took away is still there. -/
theorem mem_afterWrites_of_mem (hkept : (⟨e.deleteRequest, true⟩ : Write) ∉ ws)
    (he : e.relationship digest ∈ g.relationships) :
    e.relationship digest ∈ (g.afterWrites digest ws).relationships := by
  induction ws generalizing g with
  | nil => exact he
  | cons w ws ih =>
    rw [List.forall_mem_cons] at hws
    rw [List.mem_cons, not_or] at hkept
    have hstep := (mem_written hd hg hws.1 e).mpr (Or.inl ⟨he, Ne.symm hkept.1⟩)
    exact ih (indexed_written hd hg hws.1) hws.2 hkept.2 hstep

/-- An edge that was merged, and that no deletion took away, is there. -/
theorem mem_afterWrites_of_merged (hkept : (⟨e.deleteRequest, true⟩ : Write) ∉ ws)
    (hmerged : (⟨e.mergeRequest, true⟩ : Write) ∈ ws) :
    e.relationship digest ∈ (g.afterWrites digest ws).relationships := by
  induction ws generalizing g with
  | nil => exact absurd hmerged List.not_mem_nil
  | cons w ws ih =>
    rw [List.forall_mem_cons] at hws
    rw [List.mem_cons, not_or] at hkept
    -- From the merge on, the edge is there and nothing deletes it.
    rcases List.mem_cons.mp hmerged with hfirst | hlater
    · have hstep := (mem_written hd hg hws.1 e).mpr (Or.inr hfirst.symm)
      exact mem_afterWrites_of_mem hd (indexed_written hd hg hws.1) hws.2 hkept.2 hstep
    · exact ih (indexed_written hd hg hws.1) hws.2 hkept.2 hlater

/-- An edge that is there, and that was not merged, was there before. -/
theorem mem_of_mem_afterWrites (hmerged : (⟨e.mergeRequest, true⟩ : Write) ∉ ws)
    (he : e.relationship digest ∈ (g.afterWrites digest ws).relationships) :
    e.relationship digest ∈ g.relationships ∧ (⟨e.deleteRequest, true⟩ : Write) ∉ ws := by
  induction ws generalizing g with
  | nil => exact ⟨he, List.not_mem_nil⟩
  | cons w ws ih =>
    rw [List.forall_mem_cons] at hws
    rw [List.mem_cons, not_or] at hmerged
    -- Backwards: the edge was there after the first write, which did not bring it.
    obtain ⟨hstep, hkept⟩ := ih (indexed_written hd hg hws.1) hws.2 hmerged.2 he
    obtain ⟨hmem, hfirst⟩ := ((mem_written hd hg hws.1 e).mp hstep).resolve_right
      (Ne.symm hmerged.1)
    rw [List.mem_cons, not_or]
    exact ⟨hmem, Ne.symm hfirst, hkept⟩

/-- An edge that is there in the end, and that was not merged on the way, has been there all along. -/
theorem mem_afterWrites_of_append {before after : List Write} (hsplit : ws = before ++ after)
    (hmerged : (⟨e.mergeRequest, true⟩ : Write) ∉ ws)
    (he : e.relationship digest ∈ (g.afterWrites digest ws).relationships) :
    e.relationship digest ∈ (g.afterWrites digest before).relationships := by
  subst hsplit
  rw [List.forall_mem_append] at hws
  rw [List.mem_append, not_or] at hmerged
  rw [afterWrites_append] at he
  exact (mem_of_mem_afterWrites hd (indexed_afterWrites hd hg hws.1) hws.2 hmerged.2 he).1

end AfterWrites

end Graph

/-! ## Writes about some sources -/

/-- The writes are of nodes, and of edges that start at one of the sources. -/
def StaysAt (sources : List EdgeSource) (ws : List Write) : Prop :=
  ∀ w ∈ ws, w.request.IsCodeWrite ∧ ∀ e, w.request.Concerns e → e.source ∈ sources

namespace StaysAt

variable {digest : Digest} {g : Graph} {sources sources' : List EdgeSource} {ws ws' : List Write}

theorem nil (sources : List EdgeSource) : StaysAt sources [] := fun _ h ↦ absurd h List.not_mem_nil

theorem append (h : StaysAt sources ws) (h' : StaysAt sources ws') : StaysAt sources (ws ++ ws') :=
  List.forall_mem_append.mpr ⟨h, h'⟩

theorem mergeNode (label : String) {key : Props} (hkey : ∀ e ∈ key, e.2.IsText) (b : Bool) :
    StaysAt [] [⟨.mergeNode label key, b⟩] := by
  refine List.forall_mem_singleton.mpr ⟨.node label hkey, fun e he ↦ ?_⟩
  obtain ⟨hdelete, hmerge⟩ := e.mergeNode_ne label key
  exact absurd he (not_or.mpr ⟨hmerge, hdelete⟩)

theorem merge (e : CodeEdge) (b : Bool) : StaysAt [e.source] [⟨e.mergeRequest, b⟩] := by
  refine List.forall_mem_singleton.mpr ⟨.merge e, fun e' he ↦ ?_⟩
  exact CodeEdge.concerns_mergeRequest.mp he ▸ List.mem_cons_self

theorem mono (h : StaysAt sources ws) (hsub : sources ⊆ sources') : StaysAt sources' ws :=
  fun w hw ↦ ⟨(h w hw).1, fun e he ↦ hsub ((h w hw).2 e he)⟩

theorem isCodeWrite (h : StaysAt sources ws) : ∀ w ∈ ws, w.request.IsCodeWrite :=
  fun w hw ↦ (h w hw).1

/-- A write about an edge of another source is not among them. -/
theorem mem_of_concerns {pre post : List Write} (hpre : StaysAt sources pre)
    (hpost : StaysAt sources post) {e : CodeEdge} (he : e.source ∉ sources) {w : Write}
    (hw : w.request.Concerns e) (hmem : w ∈ pre ++ ws ++ post) : w ∈ ws := by
  rw [List.mem_append, List.mem_append] at hmem
  refine (hmem.resolve_right fun h ↦ ?_).resolve_left fun h ↦ ?_
  · exact he ((hpost w h).2 e hw)
  · exact he ((hpre w h).2 e hw)

variable (hd : Function.Injective digest) (hg : g.Indexed digest)

include hd hg

/-- Relationships that leave none of the sources stay where they are. -/
theorem elsewhere_afterWrites (h : StaysAt sources ws) :
    (g.afterWrites digest ws).elsewhere sources = g.elsewhere sources := by
  rw [(Graph.indexed_afterWrites hd hg h.isCodeWrite).elsewhere_eq hd, hg.elsewhere_eq hd]
  refine Graph.filter_afterWrites hd hg h.isCodeWrite fun w hw e he ↦ ?_
  rw [Bool.not_eq_false', List.any_eq_true]
  refine ⟨e.source, (h w hw).2 e he, ?_⟩
  rw [CodeEdge.relationship_type, CodeEdge.relationship_sourceId, beq_self_eq_true,
    beq_self_eq_true, Bool.and_self]

theorem importsOf_afterWrites (h : StaysAt sources ws) {path : String}
    (hpath : .file path ∉ sources) :
    (g.afterWrites digest ws).importsOf path = g.importsOf path := by
  refine Indexing.importsOf_congr hd hg (Graph.indexed_afterWrites hd hg h.isCodeWrite) ?_
  refine Graph.filter_afterWrites hd hg h.isCodeWrite fun w hw e he ↦ ?_
  rw [CodeEdge.relationship_type, CodeEdge.relationship_sourceId, Graph.includes_nil, Bool.and_true,
    Bool.and_eq_false_iff, beq_eq_false_iff_ne, beq_eq_false_iff_ne]
  have hsource := (h w hw).2 e he
  cases hs : e.source with
  | file p =>
    refine Or.inr fun hid ↦ hpath ?_
    obtain rfl := (Graph.fileId_inj hd).mp hid
    exact hs ▸ hsource
  | function name p => exact Or.inl importsFrom_ne_calls.symm

end StaysAt

/-! ## Counting merges -/

/-- Does the request merge a relationship of the type? -/
def Request.merges (type : String) : Request → Bool
  | mergeRelationship type' .. => type' == type
  | _ => false

/-- The number of merges of relationships of the type that succeeded. -/
def mergedCount (type : String) (ws : List Write) : Nat :=
  ws.countP fun w ↦ w.succeeded && w.request.merges type

theorem mergedCount_append (type : String) (ws ws' : List Write) :
    mergedCount type (ws ++ ws') = mergedCount type ws + mergedCount type ws' := List.countP_append

theorem CodeEdge.merges_mergeRequest (type : String) (e : CodeEdge) :
    e.mergeRequest.merges type = (e.source.type == type) := by
  obtain ⟨s, name, path⟩ := e
  cases s <;> rfl

theorem CodeEdge.merges_deleteRequest (type : String) (e : CodeEdge) :
    e.deleteRequest.merges type = false := by
  obtain ⟨s, name, path⟩ := e
  cases s <;> rfl

theorem Request.IsCodeWrite.merges_eq_false {r : Request} {type : String} (hr : r.IsCodeWrite)
    (htype : ∀ e, r.Concerns e → e.source.type ≠ type) : r.merges type = false := by
  cases hr with
  | node label hkey => rfl
  | merge e =>
    rw [e.merges_mergeRequest, beq_eq_false_iff_ne]
    exact htype e (CodeEdge.concerns_mergeRequest.mpr rfl)
  | delete e => exact e.merges_deleteRequest type

/-- Writes about sources of other types merge nothing of the type. -/
theorem StaysAt.mergedCount_eq_zero {sources : List EdgeSource} {ws : List Write} {type : String}
    (h : StaysAt sources ws) (htype : ∀ s ∈ sources, s.type ≠ type) : mergedCount type ws = 0 := by
  rw [mergedCount, List.countP_eq_zero]
  intro w hw
  obtain ⟨hcode, hsource⟩ := h w hw
  rw [hcode.merges_eq_false fun e he ↦ htype _ (hsource e he), Bool.and_false]
  exact Bool.false_ne_true

end CodeAtlas
