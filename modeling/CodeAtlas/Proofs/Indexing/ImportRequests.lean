import CodeAtlas.Proofs.Indexing.Indexed
import CodeAtlas.Proofs.Indexing.Interleaving

/-!
# What is asked about the imports of a file

Of all that the registration of a file asks, two sorts of requests change the imports of the file:
one merges an import, the other one deletes an import. The rest is `IsAside`. So the imports after a
sequence of such requests can be told from the requests, without a look at the graph: an import is
there if it has been merged, and not deleted since. `IsUndone` is the second part of this.
-/

namespace CodeAtlas.Indexing

open CodeAtlas.Graph Program
open Syntax (Import)

/-! ## The requests -/

abbrev mergeRequest (path : String) (i : Import) : Request :=
  .mergeRelationship importsFrom fileLabel (fileKey (.text path)) fileLabel
    (fileKey (.text i.source)) (some [("clause", .text i.clause)])

abbrev deleteRequest (path : String) (i : Import) : Request :=
  .deleteRelationship importsFrom fileLabel (fileKey (.text path)) fileLabel
    (fileKey (.text i.source)) (some [("clause", .text i.clause)])

abbrev findRequest (path : String) : Request :=
  .findRelationships importsFrom fileLabel (fileKey (.text path)) none

/-- The other requests that the registration of the file makes. -/
inductive IsAside (path : String) : Request → Prop
  | mergeFile : IsAside path (.mergeNode fileLabel (fileKey (.text path)))
  | ofFunctions {r : Request} : IsOfFunctions path r → IsAside path r
  | note (n : Notice) : IsAside path (.note n)

variable {path : String} {i j : Import} {r : Request} {rs : List Request}

theorem mergeRequest_inj : mergeRequest path i = mergeRequest path j ↔ i = j := by
  refine ⟨fun h ↦ ?_, fun h ↦ h ▸ rfl⟩
  simpa [fileKey, and_comm, Import.ext_iff] using h

theorem deleteRequest_inj : deleteRequest path i = deleteRequest path j ↔ i = j := by
  refine ⟨fun h ↦ ?_, fun h ↦ h ▸ rfl⟩
  simpa [fileKey, and_comm, Import.ext_iff] using h

/-- Does the request change relationships of the type? -/
def Writes (type : String) : Request → Prop
  | .mergeRelationship type' .. => type' = type
  | .deleteRelationship type' .. => type' = type
  | _ => False

theorem IsAside.not_writes (hr : IsAside path r) : ¬ Writes importsFrom r := by
  have hne : calls ≠ importsFrom := by decide
  cases hr with
  | mergeFile | note => exact id
  | ofFunctions hr =>
    cases hr with
    | mergeCall | deleteCall => exact hne
    | _ => exact id

theorem IsAside.ne_mergeRequest (hr : IsAside path r) (i : Import) : r ≠ mergeRequest path i := by
  rintro rfl
  exact hr.not_writes rfl

theorem IsAside.ne_deleteRequest (hr : IsAside path r) (i : Import) :
    r ≠ deleteRequest path i := by
  rintro rfl
  exact hr.not_writes rfl

theorem isIndexing_mergeRequest : (mergeRequest path i).IsIndexing := Or.inl ⟨path, i, rfl⟩

theorem IsAside.isIndexing (hr : IsAside path r) : r.IsIndexing := by
  cases hr with
  | mergeFile => exact isText_fileKey path
  | ofFunctions hr =>
    cases hr with
    | mergeFunction name q => exact isText_functionKey name q
    | mergeCall name callee target => exact Or.inr ⟨name, path, callee, target, rfl⟩
    | _ => trivial
  | note => trivial

/-! ## Their effect -/

variable {digest : Digest} {g h : Graph}

section Injective

variable (hd : Function.Injective digest)

include hd

/-- A request changes relationships of its type only. -/
theorem mem_relationships_of_not_writes (hg : g.Textual digest) (hr : r.IsIndexing)
    {x : Except Fault r.Reply} (hx : Answers digest r g x h) {q : Relationship}
    (hq : ¬ Writes q.type r) : q ∈ h.relationships ↔ q ∈ g.relationships := by
  cases r with
  | mergeNode label key =>
    rw [Answers, answer?, if_pos (isWritable_map_of_scalar fun e he ↦ (hr e he).isScalar)] at hx
    rw [hx.2, relationships_mergeNode]
  | mergeRelationship type fromLabel fromKey toLabel toKey attrs =>
    obtain ⟨hfrom, hto, hattrs⟩ := hr.isTextual
    have hone : (attrs.getD []).length ≤ 1 := by
      rcases hr with ⟨path, i, heq⟩ | ⟨name, path, callee, target, heq⟩
      · obtain ⟨-, -, -, -, -, rfl⟩ := Request.mergeRelationship.inj heq
        exact le_rfl
      · obtain ⟨-, -, -, -, -, rfl⟩ := Request.mergeRelationship.inj heq
        exact Nat.zero_le 1
    rw [Answers, answer?_mergeRelationship digest g type fromLabel toLabel attrs
      (fun e he ↦ (hfrom e he).isScalar) (fun e he ↦ (hto e he).isScalar)
      (fun e he ↦ (hattrs e he).isScalar)] at hx
    rw [hx.2, hg.mem_relationships_mergeRelationship hd (fun _ ↦ Datum.IsText.isScalar)
      (fun e he ↦ (hattrs e he).isScalar) hone]
    refine or_iff_left ?_
    rintro rfl
    exact hq rfl
  | findRelationships type fromLabel fromKey attrs =>
    rw [Answers, answer?] at hx
    split_ifs at hx
    · rw [hx.2]
    · rw [hx.2]
  | deleteRelationship type fromLabel fromKey toLabel toKey attrs =>
    rw [Answers, answer?] at hx
    split_ifs at hx
    · rw [hx.2]
      refine mem_relationships_without.trans (and_iff_left fun hdoomed ↦ ?_)
      exact hq (isBetween_iff.mp hdoomed).1.symm
    · rw [hx.2]
  | _ => rw [hx.2]

theorem IsAside.mem_importsOf (hg : g.Indexed digest) (hr : IsAside path r)
    {x : Except Fault r.Reply} (hx : Answers digest r g x h) :
    i ∈ h.importsOf path ↔ i ∈ g.importsOf path := by
  have hh := hg.answers hd hr.isIndexing hx
  rw [hh.mem_importsOf hd, hg.mem_importsOf hd]
  exact mem_relationships_of_not_writes hd hg.textual hr.isIndexing hx hr.not_writes

theorem mem_importsOf_merge (hg : g.Indexed digest) {x : Except Fault (mergeRequest path j).Reply}
    (hx : Answers digest (mergeRequest path j) g x h) :
    (∃ id, x = .ok id) ∧ (i ∈ h.importsOf path ↔ i ∈ g.importsOf path ∨ i = j) := by
  have hh := hg.answers hd isIndexing_mergeRequest hx
  rw [Answers, answer?_mergeRelationship digest g importsFrom fileLabel fileLabel _
    (isScalar_fileKey (Datum.isScalar_text path)) (isScalar_fileKey (Datum.isScalar_text j.source))
    (by simp [Datum.IsScalar])] at hx
  obtain ⟨rfl, rfl⟩ := hx
  rw [hh.mem_importsOf hd, hg.mem_importsOf hd, hg.textual.mem_relationships_mergeRelationship hd
    (fun _ ↦ Datum.IsText.isScalar) (by simp) (by simp)]
  exact ⟨⟨_, rfl⟩, or_congr_right ((importRelationship_inj hd).trans (and_iff_right rfl))⟩

theorem mem_importsOf_delete (hg : g.Indexed digest)
    {x : Except Fault (deleteRequest path j).Reply}
    (hx : Answers digest (deleteRequest path j) g x h) :
    (∃ n, x = .ok n) ∧ (i ∈ h.importsOf path ↔ i ∈ g.importsOf path ∧ i ≠ j) := by
  obtain ⟨n, hn⟩ := answer?_deleteRelationship digest g importsFrom fileLabel fileLabel
    (some [("clause", .text j.clause)]) (isScalar_fileKey (Datum.isScalar_text path))
    (isScalar_fileKey (Datum.isScalar_text j.source))
  rw [Answers, hn] at hx
  obtain ⟨rfl, rfl⟩ := hx
  rw [(hg.without _).mem_importsOf hd, hg.mem_importsOf hd, mem_relationships_without,
    isBetween_iff]
  refine ⟨⟨n, rfl⟩, and_congr_right fun _ ↦ not_congr ⟨?_, ?_⟩⟩
  · rintro ⟨-, -, htarget, hincludes⟩
    have hsource : i.source = j.source := (fileId_inj hd).mp htarget
    have hclause : Datum.text j.clause = .text i.clause := by
      rw [importRelationship_properties, includes, Option.getD_some, List.all_cons, List.all_nil,
        Bool.and_true] at hincludes
      exact Datum.same_text_left.mp hincludes
    exact Import.ext (Datum.text.inj hclause).symm hsource
  · rintro rfl
    refine ⟨rfl, rfl, rfl, ?_⟩
    rw [importRelationship_properties, includes, Option.getD_some, List.all_cons, List.all_nil,
      Bool.and_true]
    exact Datum.same_text_left.mpr rfl

theorem importsOf_find (hg : g.Indexed digest) {x : Except Fault (findRequest path).Reply}
    (hx : Answers digest (findRequest path) g x h) :
    x = .ok ((g.importsOf path).map edgeOf) ∧ h = g := by
  rw [Answers, answer?_findRelationships hg.textual importsFrom fileLabel none
    (isScalar_fileKey (Datum.isScalar_text path))] at hx
  rw [← hg.edgesFrom_imports hd]
  exact hx

end Injective

/-! ## What was asked last -/

/-- The import has been deleted, and it has not been merged since. -/
def IsUndone (path : String) (i : Import) (rs : List Request) : Prop :=
  ∃ before after, rs = before ++ deleteRequest path i :: after ∧ mergeRequest path i ∉ after

theorem not_isUndone_nil : ¬ IsUndone path i [] := by
  rintro ⟨before, after, hrs, -⟩
  exact absurd hrs (by simp)

theorem isUndone_concat : IsUndone path i (rs ++ [r]) ↔
    r = deleteRequest path i ∨ IsUndone path i rs ∧ r ≠ mergeRequest path i := by
  constructor
  · rintro ⟨before, after, hrs, hafter⟩
    rcases List.eq_nil_or_concat after with rfl | ⟨after, q, rfl⟩
    · exact Or.inl (List.singleton_inj.mp (List.append_inj' hrs rfl).2)
    · rw [List.concat_eq_append, ← List.cons_append, ← List.append_assoc] at hrs
      obtain ⟨rfl, hlast⟩ := List.append_inj' hrs rfl
      obtain rfl := List.singleton_inj.mp hlast
      rw [List.concat_eq_append, List.mem_append, List.mem_singleton, not_or] at hafter
      exact Or.inr ⟨⟨before, after, rfl, hafter.1⟩, Ne.symm hafter.2⟩
  · rintro (rfl | ⟨⟨before, after, rfl, hafter⟩, hr⟩)
    · exact ⟨rs, [], rfl, List.not_mem_nil⟩
    · refine ⟨before, after ++ [r], by rw [List.append_assoc, List.cons_append], ?_⟩
      rw [List.mem_append, List.mem_singleton, not_or]
      exact ⟨hafter, Ne.symm hr⟩

theorem IsUndone.mem (h : IsUndone path i rs) : deleteRequest path i ∈ rs := by
  obtain ⟨before, after, rfl, -⟩ := h
  exact List.mem_append_right _ List.mem_cons_self

end CodeAtlas.Indexing
