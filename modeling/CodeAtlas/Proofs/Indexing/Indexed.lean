import CodeAtlas.Proofs.Graph.Reached
import CodeAtlas.Proofs.Indexing.History

/-!
# Graphs that indexing reaches

Of the relationships, indexing writes two kinds only: imports, which lead from a file to a file and
have a clause, and calls, which lead from a function to a function and have nothing. Whatever
requests of this sort an empty store has answered, alone or mixed up with those of others, and
whatever has been deleted in between, every relationship of the two types is of the two shapes.

In such a graph the imports of a file can be read off as a list, in the order in which they were
inserted. All that the resolution of calls wants to know of a graph is in these lists.
-/

namespace CodeAtlas

open CodeAtlas.Graph (importsFrom calls fileLabel fileKey functionLabel functionKey)
open Indexing (importRelationship callRelationship)

/-! ## Requests of indexing -/

namespace Request

/-- What the request writes, if anything, is a node of texts, an import or a call. -/
def IsIndexing : Request → Prop
  | mergeNode _ key => ∀ e ∈ key, e.2.IsText
  | mergeRelationship type fromLabel fromKey toLabel toKey attrs =>
    (∃ path i, mergeRelationship type fromLabel fromKey toLabel toKey attrs
      = mergeRelationship importsFrom fileLabel (fileKey (.text path)) fileLabel
          (fileKey (.text (i : Syntax.Import).source)) (some [("clause", .text i.clause)])) ∨
    ∃ name path callee target, mergeRelationship type fromLabel fromKey toLabel toKey attrs
      = mergeRelationship calls functionLabel (functionKey (.text name) (.text path)) functionLabel
          (functionKey (.text callee) (.text target)) none
  | _ => True

theorem IsIndexing.isTextual {r : Request} (h : r.IsIndexing) : r.IsTextual := by
  cases r with
  | mergeNode label key => exact h
  | mergeRelationship type fromLabel fromKey toLabel toKey attrs =>
    rcases h with ⟨path, i, heq⟩ | ⟨name, path, callee, target, heq⟩
    · rw [heq]
      exact ⟨Graph.isText_fileKey path, Graph.isText_fileKey i.source, by simp [Datum.IsText]⟩
    · rw [heq]
      exact ⟨Graph.isText_functionKey name path, Graph.isText_functionKey callee target, by simp⟩
  | _ => trivial

end Request

namespace Graph

/-- A graph of texts whose imports and calls are as indexing writes them. -/
structure Indexed (digest : Digest) (g : Graph) : Prop where
  textual : g.Textual digest
  imports : ∀ r ∈ g.relationships, r.type = importsFrom →
    ∃ path i, r = importRelationship digest path i
  calls : ∀ r ∈ g.relationships, r.type = calls → ∃ name path callee target,
    r = callRelationship digest name path callee target

variable {digest : Digest} {g h : Graph} {path : String} {r : Relationship}

theorem indexed_empty : Graph.empty.Indexed digest where
  textual := consistent_empty
  imports := fun _ h ↦ absurd h List.not_mem_nil
  calls := fun _ h ↦ absurd h List.not_mem_nil

namespace Indexed

/-- What counts is that the relationships that are new are of the two shapes. -/
theorem of_mem (hg : g.Indexed digest) (hh : h.Textual digest)
    (hmem : ∀ r ∈ h.relationships, r ∈ g.relationships ∨
      (∃ path i, r = importRelationship digest path i) ∨
      ∃ name path callee target, r = callRelationship digest name path callee target) :
    h.Indexed digest where
  textual := hh
  imports r hr htype := by
    rcases hmem r hr with hold | himport | ⟨name, path, callee, target, rfl⟩
    · exact hg.imports r hold htype
    · exact himport
    · have hne : Graph.calls ≠ importsFrom := by decide
      exact absurd htype hne
  calls r hr htype := by
    rcases hmem r hr with hold | ⟨path, i, rfl⟩ | hcall
    · exact hg.calls r hold htype
    · have hne : importsFrom ≠ Graph.calls := by decide
      exact absurd htype hne
    · exact hcall

theorem mergeNode (hg : g.Indexed digest) {label : String} {key : Props}
    (hkey : ∀ e ∈ key, e.2.IsText) : (g.mergeNode digest label key).Indexed digest := by
  refine hg.of_mem (hg.textual.mergeNode hkey) fun r hr ↦ Or.inl ?_
  rwa [relationships_mergeNode] at hr

theorem without (hg : g.Indexed digest) (doomed : Relationship → Bool) :
    (g.without doomed).Indexed digest :=
  hg.of_mem (hg.textual.without doomed) fun _ hr ↦ Or.inl (List.mem_of_mem_filter hr)

section Injective

variable (hd : Function.Injective digest)

include hd

theorem mergeImport (hg : g.Indexed digest) (path : String) (i : Syntax.Import) :
    (g.mergeRelationship digest importsFrom fileLabel (fileKey (.text path)) fileLabel
      (fileKey (.text i.source)) [("clause", .text i.clause)]).Indexed digest := by
  refine hg.of_mem (hg.textual.mergeRelationship (isText_fileKey path) (isText_fileKey i.source)
    (by simp [Datum.IsText])) fun r hr ↦ ?_
  rw [hg.textual.mem_relationships_mergeRelationship hd (fun _ ↦ Datum.IsText.isScalar) (by simp)
    (by simp)] at hr
  exact hr.imp_right fun heq ↦ Or.inl ⟨path, i, heq⟩

theorem mergeCall (hg : g.Indexed digest) (name path callee target : String) :
    (g.mergeRelationship digest Graph.calls functionLabel (functionKey (.text name) (.text path))
      functionLabel (functionKey (.text callee) (.text target)) []).Indexed digest := by
  refine hg.of_mem (hg.textual.mergeRelationship (isText_functionKey name path)
    (isText_functionKey callee target) (by simp)) fun r hr ↦ ?_
  rw [hg.textual.mem_relationships_mergeRelationship hd (fun _ ↦ Datum.IsText.isScalar) (by simp)
    (by simp)] at hr
  exact hr.imp_right fun heq ↦ Or.inr ⟨name, path, callee, target, heq⟩

/-- **One step**: a request of indexing leaves a graph that indexing reaches. -/
theorem answers (hg : g.Indexed digest) {r : Request} (hr : r.IsIndexing)
    {x : Except Fault r.Reply} (hx : Graph.Answers digest r g x h) : h.Indexed digest := by
  have hh := hg.textual.answers hr.isTextual hx
  cases r with
  | mergeNode label key =>
    rw [Answers, answer?, if_pos (isWritable_map_of_scalar fun e he ↦ (hr e he).isScalar)] at hx
    rw [hx.2]
    exact hg.mergeNode hr
  | mergeRelationship type fromLabel fromKey toLabel toKey attrs =>
    obtain ⟨hfrom, hto, hattrs⟩ := hr.isTextual
    rw [Answers, answer?_mergeRelationship digest g type fromLabel toLabel attrs
      (fun e he ↦ (hfrom e he).isScalar) (fun e he ↦ (hto e he).isScalar)
      (fun e he ↦ (hattrs e he).isScalar)] at hx
    rw [hx.2]
    rcases hr with ⟨path, i, heq⟩ | ⟨name, path, callee, target, heq⟩
    · obtain ⟨rfl, rfl, rfl, rfl, rfl, rfl⟩ := Request.mergeRelationship.inj heq
      exact hg.mergeImport hd path i
    · obtain ⟨rfl, rfl, rfl, rfl, rfl, rfl⟩ := Request.mergeRelationship.inj heq
      exact hg.mergeCall hd name path callee target
  | deleteRelationship type fromLabel fromKey toLabel toKey attrs =>
    rw [Answers, answer?] at hx
    split_ifs at hx
    · exact hx.2 ▸ hg.without _
    · exact hx.2 ▸ hg
  | findRelationships type fromLabel fromKey attrs =>
    rw [Answers, answer?] at hx
    split_ifs at hx
    · exact hx.2 ▸ hg
    · exact hx.2 ▸ hg
  | _ =>
    obtain rfl := hx.2
    exact hg

end Injective

end Indexed

/-! ## The imports of a file -/

/-- The import that a relationship between files stands for. -/
def importOf (g : Graph) (r : Relationship) : Syntax.Import :=
  ⟨(Indexing.propertyOf "clause" r.properties).text?.getD "",
    (Indexing.propertyOf "path" (g.propertiesAt r.targetId)).text?.getD ""⟩

/-- The imports of the file at a path, in the order of their insertion. -/
def importsOf (g : Graph) (path : String) : List Syntax.Import :=
  (g.relationships.filter fun r ↦
    r.type == importsFrom && (g.node? r.sourceId).any (·.isFile path)).map g.importOf

namespace Indexed

variable (hd : Function.Injective digest)

include hd

theorem importOf_eq (hg : g.Indexed digest) {i : Syntax.Import}
    (hi : importRelationship digest path i ∈ g.relationships) :
    g.importOf (importRelationship digest path i) = i := by
  have htarget : g.propertiesAt (fileId digest i.source) = fileKey (.text i.source) :=
    hg.textual.propertiesAt_file hd (hg.textual.target_mem _ hi)
  rw [importOf, Indexing.importRelationship_targetId, htarget]
  rfl

/-- What leaves a file are its imports, in their order. -/
theorem outgoing_imports (hg : g.Indexed digest) (path : String) :
    g.outgoing importsFrom (fileId digest path) []
      = (g.importsOf path).map (importRelationship digest path) := by
  have hfilter : g.outgoing importsFrom (fileId digest path) [] = g.relationships.filter fun r ↦
      r.type == importsFrom && (g.node? r.sourceId).any (·.isFile path) := by
    refine List.filter_congr fun r hr ↦ ?_
    obtain ⟨n, hn⟩ := hg.textual.source_mem r hr
    rw [includes_nil, Bool.and_true, hn, Option.any_some, Bool.eq_iff_iff, Bool.and_eq_true,
      Bool.and_eq_true, beq_iff_eq, beq_iff_eq, hg.textual.isFile_iff hd hn]
  rw [importsOf, ← hfilter, List.map_map]
  refine (List.map_id _).symm.trans (List.map_congr_left fun r hr ↦ ?_)
  obtain ⟨hmem, htype, hsource, -⟩ := mem_outgoing.mp hr
  obtain ⟨p, i, rfl⟩ := hg.imports r hmem htype
  obtain rfl := (fileId_inj hd).mp hsource
  exact congrArg (importRelationship digest p) (hg.importOf_eq hd hmem).symm

theorem mem_importsOf (hg : g.Indexed digest) {i : Syntax.Import} :
    i ∈ g.importsOf path ↔ importRelationship digest path i ∈ g.relationships := by
  have hout : importRelationship digest path i ∈ g.outgoing importsFrom (fileId digest path) [] ↔
      importRelationship digest path i ∈ g.relationships := by
    rw [mem_outgoing]
    exact and_iff_left ⟨rfl, rfl, rfl⟩
  rw [← hout, hg.outgoing_imports hd, List.mem_map]
  constructor
  · exact fun hi ↦ ⟨i, hi, rfl⟩
  · rintro ⟨j, hj, heq⟩
    rw [← ((Indexing.importRelationship_inj hd).mp heq).2]
    exact hj

theorem nodup_importsOf (hg : g.Indexed digest) (path : String) : (g.importsOf path).Nodup := by
  have hout : (g.outgoing importsFrom (fileId digest path) []).Nodup :=
    (hg.textual.relationships_nodup.of_map _).filter _
  rw [hg.outgoing_imports hd] at hout
  exact hout.of_map

/-- The listing of a file's imports. -/
theorem edgesFrom_imports (hg : g.Indexed digest) (path : String) :
    g.edgesFrom importsFrom (fileId digest path) []
      = (g.importsOf path).map Indexing.edgeOf := by
  rw [edgesFrom, hg.outgoing_imports hd, List.map_map]
  refine List.map_congr_left fun i hi ↦ ?_
  have htarget : g.propertiesAt (fileId digest i.source) = fileKey (.text i.source) :=
    hg.textual.propertiesAt_file hd (hg.textual.target_mem _ ((hg.mem_importsOf hd).mp hi))
  rw [Function.comp_apply, Indexing.importRelationship_targetId, htarget]
  rfl

/-- What a lookup finds for a name is the source of the first import of the name. -/
theorem importedFrom_eq (hg : g.Indexed digest) (path name : String) :
    Indexing.importedFrom digest g path name
      = ((g.importsOf path).find? (·.clause == name)).map fun i ↦ .text i.source := by
  have hclause : g.outgoing importsFrom (fileId digest path) [("clause", .text name)]
      = ((g.importsOf path).filter (·.clause == name)).map (importRelationship digest path) := by
    have hrefine : g.outgoing importsFrom (fileId digest path) [("clause", .text name)]
        = (g.outgoing importsFrom (fileId digest path) []).filter fun r ↦
          includes r.properties [("clause", .text name)] := by
      rw [outgoing, outgoing, List.filter_filter]
      refine List.filter_congr fun r _ ↦ ?_
      rw [includes_nil, Bool.and_true, Bool.and_comm]
    rw [hrefine, hg.outgoing_imports hd, List.filter_map]
    refine congrArg _ (List.filter_congr fun i _ ↦ ?_)
    rw [Function.comp_apply, Indexing.importRelationship_properties, includes, List.all_cons,
      List.all_nil, Bool.and_true, Bool.eq_iff_iff, beq_iff_eq]
    refine Datum.same_text_left.trans ?_
    exact Datum.text.injEq name i.clause ▸ eq_comm
  rw [Indexing.importedFrom, edgesFrom, hclause, List.map_map, List.head?_map, List.head?_filter]
  cases hfound : (g.importsOf path).find? (·.clause == name) with
  | none => rfl
  | some i =>
    have hi := (hg.mem_importsOf hd).mp (List.mem_of_find?_eq_some hfound)
    rw [Option.map_some, Option.bind_some, Option.map_some, Function.comp_apply,
      Indexing.importRelationship_targetId,
      hg.textual.propertiesAt_file hd (hg.textual.target_mem _ hi)]
    rfl

end Indexed

end Graph

/-! ## Reaching graphs -/

/-- **What is reached** from an empty store by requests of indexing is a graph of imports and calls.
-/
theorem Serves.exists_indexed_after {σ : Type} {digest digest' : Digest} {store : σ → Store}
    {respond : Responder σ} (hserves : Serves digest store respond)
    (hd : Function.Injective digest') {s : σ} (hs : (store s).Holds .empty)
    {history : List Request} (hhistory : ∀ r ∈ history, r.IsIndexing)
    (hagree : ∀ r ∈ history, ∀ t ∈ r.hashed digest, digest t = digest' t) :
    ∃ g, (store (respond.after history s)).Holds g ∧ g.Indexed digest' :=
  hserves.exists_after (fun r hr _ _ _ hg hx ↦ hg.answers hd (hhistory r hr) hx) hagree hs
    Graph.indexed_empty

end CodeAtlas
