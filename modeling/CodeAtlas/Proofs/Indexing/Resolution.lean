import CodeAtlas.Proofs.Indexing.Indexed
import CodeAtlas.Proofs.Indexing.Outages
import Mathlib.Algebra.GroupWithZero.Nat

/-!
# What resolving a file leaves

A name may be declared several times in a file. All its declarations are about the calls of one
function, and each of them brings these calls up to date as if the others were not there. What
counts in the end is the last one: afterwards the function calls exactly what its last declaration
calls and what is imported, or is declared in the file itself if calls within a file are linked.

The declarations are worked through one by one, so the proofs are by induction from the end of the
list. One declaration settles the calls of its own name, by `mem_resolved_call`, and touches nothing
else.
-/

namespace CodeAtlas.Indexing

open CodeAtlas.Graph Program
open Syntax (Function Import)

/-! ## Where calls lead -/

/-- The file that a call of a name leads to: the source of the first import of the name or, if calls
within a file are linked, the file itself where it declares the name. -/
def callTarget? (linkLocal : Bool) (functions : List Function) (path : String)
    (imports : List Import) (callee : String) : Option String :=
  match imports.find? (·.clause == callee) with
  | some i => some i.source
  | none => if linkLocal && (functions.map (·.name)).contains callee then some path else none

/-- The declaration of a name that comes last. -/
def lastDeclaration (functions : List Function) (name : String) : Option Function :=
  functions.reverse.find? (·.name == name)

theorem lastDeclaration_snoc (functions : List Function) (f : Function) (name : String) :
    lastDeclaration (functions ++ [f]) name
      = if f.name = name then some f else lastDeclaration functions name := by
  rw [lastDeclaration, List.reverse_append, List.reverse_singleton, List.singleton_append,
    List.find?_cons]
  by_cases h : f.name = name
  · rw [if_pos h, beq_iff_eq.mpr h]
  · rw [if_neg h, beq_eq_false_iff_ne.mpr h, lastDeclaration]

theorem mem_of_lastDeclaration {functions : List Function} {name : String} {f : Function}
    (h : lastDeclaration functions name = some f) : f ∈ functions ∧ f.name = name :=
  ⟨List.mem_reverse.mp (List.mem_of_find?_eq_some h),
    beq_iff_eq.mp (List.find?_some (p := fun f : Function ↦ f.name == name) h)⟩

variable {digest : Digest} {g : Graph} {linkLocal : Bool} {functions : List Function}
  {f : Function} {path : String} {n : ℕ} {r : Relationship}

/-- A lookup that does not fail finds where the call leads. -/
theorem targetPath_importedFrom (hd : Function.Injective digest) (hg : g.Indexed digest)
    (hf : f.path = path) (callee : String) :
    targetPath linkLocal f (functions.map (·.name)) callee (importedFrom digest g path callee)
      = (callTarget? linkLocal functions path (g.importsOf path) callee).map .text := by
  rw [hg.importedFrom_eq hd, callTarget?]
  cases (g.importsOf path).find? (·.clause == callee) with
  | some i => rfl
  | none =>
    rw [Option.map_none, targetPath, hf]
    split <;> rfl

theorem linkedCalls_none (linkLocal : Bool) (f : Function) (localNames : List String)
    (imported : String → Option Datum) (callees : List String) (n : ℕ) :
    linkedCalls linkLocal f localNames imported Outages.none callees n = callees.filterMap fun c ↦
      (targetPath linkLocal f localNames c (imported c)).map fun d ↦ (c, d) := by
  have hfst := List.zipIdx_map_fst n callees
  conv_rhs => rw [← hfst, List.filterMap_map]
  rfl

/-- The calls of a declaration that are linked if no lookup fails. -/
theorem linkedCalls_importedFrom (hd : Function.Injective digest) (hg : g.Indexed digest)
    (hf : f.path = path) :
    linkedCalls linkLocal f (functions.map (·.name)) (importedFrom digest g path) Outages.none
        f.calls n
      = f.calls.filterMap fun c ↦
          (callTarget? linkLocal functions path (g.importsOf path) c).map fun q ↦ (c, .text q) := by
  rw [linkedCalls_none]
  refine List.filterMap_congr fun c _ ↦ ?_
  rw [targetPath_importedFrom hd hg hf, Option.map_map]
  rfl

theorem mem_linkedCalls_importedFrom (hd : Function.Injective digest) (hg : g.Indexed digest)
    (hf : f.path = path) {callee target : String} :
    (callee, .text target) ∈ linkedCalls linkLocal f (functions.map (·.name))
        (importedFrom digest g path) Outages.none f.calls n ↔
      callee ∈ f.calls ∧
        callTarget? linkLocal functions path (g.importsOf path) callee = some target := by
  rw [linkedCalls_importedFrom hd hg hf, List.mem_filterMap]
  constructor
  · rintro ⟨c, hc, hmap⟩
    obtain ⟨q, hq, heq⟩ := Option.map_eq_some_iff.mp hmap
    obtain ⟨rfl, htext⟩ := Prod.mk.inj heq
    exact ⟨hc, Datum.text.inj htext ▸ hq⟩
  · rintro ⟨hcallee, htarget⟩
    exact ⟨callee, hcallee, by rw [htarget, Option.map_some]⟩

/-- What is counted is, for each declaration, how many of its calls lead somewhere. -/
theorem linkedCount_importedFrom (hd : Function.Injective digest) (hg : g.Indexed digest)
    {names : List Function} (hown : ∀ f ∈ functions, f.path = path) (n : ℕ) :
    linkedCount linkLocal (names.map (·.name)) (importedFrom digest g) Outages.none functions n
      = (functions.map fun f ↦ f.calls.countP fun c ↦
          (callTarget? linkLocal names path (g.importsOf path) c).isSome).sum := by
  induction functions generalizing n with
  | nil => rfl
  | cons f functions ih =>
    rw [List.forall_mem_cons] at hown
    rw [linkedCount, ih hown.2, List.map_cons, List.sum_cons, hown.1,
      linkedCalls_importedFrom hd hg hown.1, List.length_filterMap_eq_countP]
    simp only [Option.isSome_map]

/-! ## One declaration after another -/

theorem resolvedAll_snoc (digest : Digest) (linkLocal : Bool) (localNames : List String)
    (imported : String → String → Option Datum) (outages : Outages) (functions : List Function)
    (f : Function) (n : ℕ) (g : Graph) :
    ∃ m, resolvedAll digest linkLocal localNames imported outages (functions ++ [f]) n g
      = resolved digest linkLocal localNames imported outages f m
          (resolvedAll digest linkLocal localNames imported outages functions n g) := by
  induction functions generalizing n g with
  | nil => exact ⟨n, rfl⟩
  | cons k functions ih => exact ih _ _

theorem importedFrom_resolvedAll {localNames : List String} {outages : Outages}
    (hg : g.Textual digest) {imported : String → String → Option Datum}
    (himported : importedFrom digest g = imported) :
    importedFrom digest (resolvedAll digest linkLocal localNames imported outages functions n g)
      = imported := by
  induction functions generalizing g n with
  | nil => exact himported
  | cons f functions ih =>
    exact ih (textual_resolved hg himported) (importedFrom_resolved hg himported)

section Injective

variable (hd : Function.Injective digest) {names : List Function}

include hd

/-- **The last declaration counts.** -/
theorem mem_resolvedAll_iff_lastDeclaration (hg : g.Indexed digest)
    (hown : ∀ f ∈ functions, f.path = path) {name : String} {f : Function}
    (hf : lastDeclaration functions name = some f) {callee target : String} :
    callRelationship digest name path callee target ∈ (resolvedAll digest linkLocal
        (names.map (·.name)) (importedFrom digest g) Outages.none functions n g).relationships ↔
      callee ∈ f.calls ∧
        callTarget? linkLocal names path (g.importsOf path) callee = some target := by
  induction functions using List.reverseRecOn with
  | nil => exact absurd hf (by simp [lastDeclaration])
  | append_singleton functions k ih =>
    rw [List.forall_mem_append, List.forall_mem_singleton] at hown
    obtain ⟨hown, rfl⟩ := hown
    have htextual : (resolvedAll digest linkLocal (names.map (·.name)) (importedFrom digest g)
        Outages.none functions n g).Textual digest := textual_resolvedAll hg.textual rfl
    obtain ⟨m, hm⟩ := resolvedAll_snoc digest linkLocal (names.map (·.name)) (importedFrom digest g)
      Outages.none functions k n g
    rw [hm, mem_resolved_call hd htextual (importedFrom_resolvedAll hg.textual rfl) rfl rfl rfl]
    rw [lastDeclaration_snoc] at hf
    by_cases hname : k.name = name
    · -- The declaration drops the call or links it, whatever was there before.
      rw [if_pos hname] at hf
      obtain rfl := Option.some.inj hf
      rw [← mem_linkedCalls_importedFrom (n := m) hd hg rfl]
      constructor
      · rintro ⟨hkeeps, -⟩
        exact not_not.mp fun hnot ↦ hkeeps ⟨⟨hname, rfl⟩, rfl, hnot⟩
      · intro hlinked
        exact ⟨fun hdrops ↦ hdrops.2.2 hlinked, Or.inr ⟨rfl, ⟨hname, rfl⟩, hlinked⟩⟩
    · -- The declaration is about another function.
      rw [if_neg hname] at hf
      rw [← ih hown hf]
      constructor
      · rintro ⟨-, hmem⟩
        exact hmem.resolve_right fun hlinks ↦ hname hlinks.2.1.1
      · exact fun hmem ↦ ⟨fun hdrops ↦ hname hdrops.1.1, Or.inl hmem⟩

end Injective

/-! ## What stays as it is -/

theorem node?_addCalls_of_some {wanted : List (String × Datum)} {id : String} {m : Node}
    (hm : g.node? id = some m) : (addCalls digest f wanted g).node? id = some m := by
  induction wanted generalizing g with
  | nil => exact hm
  | cons w wanted ih => exact ih (node?_mergeRelationship_of_some hm)

theorem node?_resolvedAll_of_some {localNames : List String}
    {imported : String → String → Option Datum} {outages : Outages} {id : String} {m : Node}
    (hm : g.node? id = some m) :
    (resolvedAll digest linkLocal localNames imported outages functions n g).node? id = some m := by
  induction functions generalizing g n with
  | nil => exact hm
  | cons f functions ih =>
    refine ih ?_
    rw [resolved]
    split
    · exact node?_addCalls_of_some hm
    · exact node?_addCalls_of_some hm

theorem filter_mergeRelationship {type fromLabel toLabel : String} {fromKey toKey attrs : Props}
    {p : Relationship → Bool}
    (hp : p (keyRelationship digest type fromLabel fromKey toLabel toKey attrs) = false) :
    (g.mergeRelationship digest type fromLabel fromKey toLabel toKey attrs).relationships.filter p
      = g.relationships.filter p := by
  rw [mergeRelationship, addRelationship]
  split
  · rw [relationships_mergeNode, relationships_mergeNode]
  · rw [relationships_mergeNode, relationships_mergeNode, List.filter_append,
      List.filter_singleton, hp, cond_false, List.append_nil]

theorem filter_without {doomed p : Relationship → Bool}
    (h : ∀ r ∈ g.relationships, doomed r → p r = false) :
    (g.without doomed).relationships.filter p = g.relationships.filter p := by
  rw [without, List.filter_filter]
  refine List.filter_congr fun r hr ↦ ?_
  by_cases hdoomed : doomed r
  · rw [h r hr hdoomed, Bool.false_and]
  · rw [eq_false_of_ne_true hdoomed, Bool.not_false, Bool.and_true]

theorem filter_addCalls {wanted : List (String × Datum)} {p : Relationship → Bool}
    (hp : ∀ r, r.type = calls → r.sourceId = functionId digest f.name f.path → p r = false) :
    (addCalls digest f wanted g).relationships.filter p = g.relationships.filter p := by
  induction wanted generalizing g with
  | nil => rfl
  | cons w wanted ih => exact ih.trans (filter_mergeRelationship (hp _ rfl rfl))

/-- Relationships that are not calls of the function stay where they are. -/
theorem filter_resolved {localNames : List String} {imported : String → String → Option Datum}
    {outages : Outages} {p : Relationship → Bool}
    (hp : ∀ r, r.type = calls → r.sourceId = functionId digest f.name f.path → p r = false) :
    (resolved digest linkLocal localNames imported outages f n g).relationships.filter p
      = g.relationships.filter p := by
  rw [resolved]
  split
  · exact filter_addCalls hp
  · refine (filter_without fun r _ hstale ↦ ?_).trans (filter_addCalls hp)
    rw [isStaleCall, isUnwanted, List.any_eq_true] at hstale
    obtain ⟨e, -, hdoomed⟩ := hstale
    rw [Bool.and_eq_true, isBetween_iff] at hdoomed
    exact hp r hdoomed.2.1 hdoomed.2.2.1

theorem filter_resolvedAll {localNames : List String} {imported : String → String → Option Datum}
    {outages : Outages} {p : Relationship → Bool} (hp : ∀ f ∈ functions, ∀ r, r.type = calls →
      r.sourceId = functionId digest f.name f.path → p r = false) :
    (resolvedAll digest linkLocal localNames imported outages functions n g).relationships.filter p
      = g.relationships.filter p := by
  induction functions generalizing g n with
  | nil => rfl
  | cons f functions ih =>
    rw [List.forall_mem_cons] at hp
    exact (ih hp.2).trans (filter_resolved hp.1)

end CodeAtlas.Indexing

namespace CodeAtlas

open Indexing Program
open CodeAtlas.Graph (calls functionId importsFrom fileLabel fileKey)
open Syntax (Function)

/-! ## The outcome as it is seen -/

/-- Is the relationship a call by a function that is among these, in the file at the path? -/
def Graph.isCallBy (g : Graph) (functions : List Function) (path : String) (r : Relationship) :
    Bool :=
  r.type == calls && functions.any fun f ↦ (g.node? r.sourceId).any (·.isFunction f.name path)

namespace Graph.Indexed

variable {digest : Digest} {g : Graph} {linkLocal : Bool} {functions names : List Function}
  {path : String} {n : ℕ}

theorem resolvedAll (hd : Function.Injective digest) (hg : g.Indexed digest) :
    (resolvedAll digest linkLocal (names.map (·.name)) (importedFrom digest g) Outages.none
      functions n g).Indexed digest :=
  hg.of_mem (textual_resolvedAll hg.textual rfl) fun _ hr ↦
    (mem_of_mem_resolvedAll hd hg.textual rfl hr).imp_right Or.inr

/-- A call between two functions is there once or not at all. -/
theorem countP_isCall (hd : Function.Injective digest) (hg : g.Indexed digest)
    {name callee target : String} {P : Prop} [Decidable P]
    (hP : callRelationship digest name path callee target ∈ g.relationships ↔ P) :
    g.relationships.countP (g.isCall name path callee target) = if P then 1 else 0 := by
  have heq : ∀ r ∈ g.relationships, g.isCall name path callee target r →
      r = callRelationship digest name path callee target := by
    intro r hr hcall
    obtain ⟨htype, hsource, htarget⟩ := (hg.textual.isCall_iff hd hr).mp hcall
    obtain ⟨name', path', callee', target', rfl⟩ := hg.calls r hr htype
    obtain ⟨rfl, rfl⟩ := (functionId_inj hd).mp hsource
    obtain ⟨rfl, rfl⟩ := (functionId_inj hd).mp htarget
    rfl
  by_cases hmem : callRelationship digest name path callee target ∈ g.relationships
  · have hself : callRelationship digest name path callee target
        ∈ g.relationships.filter (g.isCall name path callee target) :=
      List.mem_filter.mpr ⟨hmem, (hg.textual.isCall_iff hd hmem).mpr ⟨rfl, rfl, rfl⟩⟩
    have hnodup : (g.relationships.filter (g.isCall name path callee target)).Nodup :=
      (hg.textual.relationships_nodup.of_map _).filter _
    have hall : g.relationships.filter (g.isCall name path callee target)
        = List.replicate _ (callRelationship digest name path callee target) :=
      List.eq_replicate_of_mem fun r hr ↦ heq r (List.mem_filter.mp hr).1 (List.mem_filter.mp hr).2
    rw [hall, List.nodup_replicate] at hnodup
    rw [if_pos (hP.mp hmem), List.countP_eq_length_filter]
    exact le_antisymm hnodup (List.length_pos_of_mem hself)
  · rw [if_neg fun h ↦ hmem (hP.mpr h), List.countP_eq_zero]
    exact fun r hr hcall ↦ hmem (heq r hr hcall ▸ hr)

/-- The callers among the functions of a file, by their ids. -/
theorem isCallBy_iff (hd : Function.Injective digest) (hg : g.Indexed digest) {r : Relationship}
    (hr : r ∈ g.relationships) : g.isCallBy functions path r ↔
      r.type = Graph.calls ∧ ∃ f ∈ functions, r.sourceId = functionId digest f.name path := by
  obtain ⟨n, hn⟩ := hg.textual.source_mem r hr
  rw [isCallBy, Bool.and_eq_true, beq_iff_eq, List.any_eq_true, hn]
  simp only [Option.any_some, hg.textual.isFunction_iff hd hn]

end Graph.Indexed

namespace Indexing

variable {σ : Type} {digest : Digest} {store : σ → Store} {respond : Responder σ}

/-- **Resolving a file** brings the calls of its functions up to date. In a graph that indexing
reaches, without failures:

* a function calls afterwards what its last declaration calls, as far as that leads somewhere, and
  each such call is there once;
* the relationships that are not calls by functions of the file are what they were, in their order;
* no node is removed;
* what is counted is, for every declaration, how many of its calls lead somewhere. -/
theorem calls_of_resolveFile (hserves : Serves digest store respond) {s : σ}
    (hs : (store s).Holds .empty) {history : List Request} (hhistory : ∀ r ∈ history, r.IsIndexing)
    (linkLocal : Bool) (path : String) {functions : List Function}
    (hown : ∀ f ∈ functions, f.path = path)
    (hdigest : Collisionless digest ((history
      ++ (resolveFile linkLocal functions).trace respond (respond.after history s)).flatMap
        (Request.hashed digest))) :
    ∃ g h, (store (respond.after history s)).Holds g ∧
      (store ((resolveFile linkLocal functions).run respond (respond.after history s)).2).Holds h ∧
      ((resolveFile linkLocal functions).run respond (respond.after history s)).1
        = .ok (functions.map fun f ↦ f.calls.countP fun c ↦
            (callTarget? linkLocal functions path (g.importsOf path) c).isSome).sum ∧
      (∀ name f, lastDeclaration functions name = some f →
        (∀ callee target, h.relationships.countP (h.isCall name path callee target)
          = if callee ∈ f.calls ∧
              callTarget? linkLocal functions path (g.importsOf path) callee = some target
            then 1 else 0) ∧
        ∀ r ∈ h.relationships, h.isCallBy [f] path r →
          ∃ callee target, h.isCall name path callee target r) ∧
      (h.relationships.filter fun r ↦ !h.isCallBy functions path r)
        = (g.relationships.filter fun r ↦ !g.isCallBy functions path r) ∧
      ∀ n ∈ g.nodes, n ∈ h.nodes := by
  obtain ⟨digest', hd, hagree⟩ := exists_injective_eqOn hdigest
  have hagree' : ∀ r, r ∈ history ∨ _ → ∀ t ∈ r.hashed digest, digest t = digest' t :=
    fun r hr t ht ↦ hagree t (List.mem_flatMap.mpr ⟨r, List.mem_append.mpr hr, ht⟩)
  obtain ⟨g, hgs, hg⟩ := hserves.exists_indexed_after hd hs hhistory
    fun r hr ↦ hagree' r (Or.inl hr)
  obtain ⟨m, hm⟩ := gives_resolveFunctions hg.textual rfl linkLocal (functions.map (·.name))
    Outages.none functions 0
  obtain ⟨h, hhs, hcount, rfl⟩ := hserves.run (fun r hr ↦ hagree' r (Or.inr hr)) hgs
    (Gives.of_noOutages hm)
  have hh : (resolvedAll digest' linkLocal (functions.map (·.name)) (importedFrom digest' g)
      Outages.none functions 0 g).Indexed digest' := hg.resolvedAll hd
  refine ⟨g, _, hgs, hhs, ?_, fun name f hf ↦ ⟨fun callee target ↦ ?_, fun r hr hcall ↦ ?_⟩, ?_,
    fun n hn ↦ ?_⟩
  · rw [← linkedCount_importedFrom hd hg hown 0]
    exact hcount
  · exact hh.countP_isCall hd (mem_resolvedAll_iff_lastDeclaration hd hg hown hf)
  · obtain ⟨htype, k, hk, hsource⟩ := (hh.isCallBy_iff hd hr).mp hcall
    obtain ⟨name', path', callee, target, rfl⟩ := hh.calls r hr htype
    rw [List.mem_singleton.mp hk, (mem_of_lastDeclaration hf).2] at hsource
    exact ⟨callee, target, (hh.textual.isCall_iff hd hr).mpr ⟨rfl, hsource, rfl⟩⟩
  · -- Both filters keep what is not a call by one of the ids.
    have hids : ∀ k : Graph, k.Indexed digest' →
        (k.relationships.filter fun r ↦ !k.isCallBy functions path r)
          = k.relationships.filter fun r ↦ !decide (r.type = calls ∧
              ∃ f ∈ functions, r.sourceId = functionId digest' f.name path) := by
      intro k hk
      refine List.filter_congr fun r hr ↦ congrArg not ?_
      rw [Bool.eq_iff_iff, decide_eq_true_iff, hk.isCallBy_iff hd hr]
    rw [hids _ hh, hids g hg]
    refine filter_resolvedAll fun f hf r htype hsource ↦ ?_
    rw [Bool.not_eq_false', decide_eq_true_iff]
    exact ⟨htype, f, hf, by rw [hsource, hown f hf]⟩
  · exact (Graph.mem_of_node? (node?_resolvedAll_of_some (hg.textual.node?_eq hn))).1

/-- A file has imported a name. -/
def importedOnce : List Request :=
  [.mergeRelationship importsFrom fileLabel (fileKey (.text "p")) fileLabel (fileKey (.text "q"))
    (some [("clause", .text "b")])]

/-- A function is declared twice, and only the first declaration calls something. -/
def declaredTwice : List Function := [⟨"f", "p", "", 1, 1, ["b"]⟩, ⟨"f", "p", "", 2, 2, []⟩]

theorem isIndexing_importedOnce : ∀ r ∈ importedOnce, r.IsIndexing := by
  rw [importedOnce, List.forall_mem_singleton]
  exact Or.inl ⟨"p", ⟨"b", "q"⟩, rfl⟩

/-- The call is counted, and it is not left. -/
theorem calls_of_resolveFile_declaredTwice :
    (∀ r ∈ importedOnce, r.IsIndexing) ∧ (∀ f ∈ declaredTwice, f.path = "p") ∧ ∃ g h,
      (Rehearsal.store (Responder.after Rehearsal.serve importedOnce (Rehearsal.new {} .empty))).Holds
        g ∧
      (Rehearsal.store ((resolveFile false declaredTwice).run Rehearsal.serve
        (Responder.after Rehearsal.serve importedOnce (Rehearsal.new {} .empty))).2).Holds h ∧
      ((resolveFile false declaredTwice).run Rehearsal.serve
        (Responder.after Rehearsal.serve importedOnce (Rehearsal.new {} .empty))).1
          = .ok (declaredTwice.map fun f ↦ f.calls.countP fun c ↦
            (callTarget? false declaredTwice "p" (g.importsOf "p") c).isSome).sum ∧
      ∀ callee target, h.relationships.countP (h.isCall "f" "p" callee target)
        = if callee ∈ [] ∧
            callTarget? false declaredTwice "p" (g.importsOf "p") callee = some target
          then 1 else 0 := by
  have hown : ∀ f ∈ declaredTwice, f.path = "p" := by decide
  obtain ⟨g, h, hg, hh, hcount, hcalls, -⟩ := calls_of_resolveFile Rehearsal.serves
    (s := Rehearsal.new {} .empty) Store.holds_empty isIndexing_importedOnce false "p" hown
    (by decide +kernel)
  exact ⟨isIndexing_importedOnce, hown, g, h, hg, hh, hcount, (hcalls "f" _ rfl).1⟩

end Indexing

end CodeAtlas
