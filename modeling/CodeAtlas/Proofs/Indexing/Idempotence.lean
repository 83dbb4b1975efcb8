import CodeAtlas.Proofs.Indexing.Resolution

/-!
# Registering a file again

A file that is registered twice in a row is registered once. The second time, all merges find what
they would add, and the imports that would be deleted are gone; so the graph that the calls are
resolved in is the one that the first time has left, and the same imports are found in it.

## Where the order may change

With the calls this is not so plain. Where a function is declared several times, the second time
deletes the calls that only an earlier declaration makes, as the first time did, and adds them again
when it comes to a later declaration that makes them. So the relationships may come back in another
order, and nothing can be said of the single steps. What holds of the whole is that a call is there
afterwards if every declaration that drops it is followed by one that links it (`Kept`), which does
not depend on the graph that the resolution starts from.
-/

namespace CodeAtlas

namespace Graph

variable {digest : Digest} {admits : Datum → Prop} {g : Graph}

/-! ## Merging what is there -/

theorem mergeNode_of_node? {label : String} {key : Props} {n : Node}
    (h : g.node? (nodeId digest label key) = some n) : g.mergeNode digest label key = g := by
  have hsome : (g.node? (keyNode digest label key).id).isSome := Option.isSome_iff_exists.mpr ⟨n, h⟩
  rw [mergeNode, addNode, if_pos hsome]

/-- The ends of a relationship are merged with it, and where it is there they are there too. -/
theorem Consistent.mergeRelationship_of_mem (hg : g.Consistent digest admits)
    {type fromLabel toLabel : String} {fromKey toKey attrs : Props}
    (h : keyRelationship digest type fromLabel fromKey toLabel toKey attrs ∈ g.relationships) :
    g.mergeRelationship digest type fromLabel fromKey toLabel toKey attrs = g := by
  obtain ⟨n, hn⟩ := hg.source_mem _ h
  obtain ⟨m, hm⟩ := hg.target_mem _ h
  rw [Graph.mergeRelationship, mergeNode_of_node? hn, mergeNode_of_node? hm]
  exact addRelationship_of_mem h rfl

theorem nodes_mergeRelationship_of_node? {type fromLabel toLabel : String}
    {fromKey toKey attrs : Props} {n m : Node}
    (hn : g.node? (nodeId digest fromLabel fromKey) = some n)
    (hm : g.node? (nodeId digest toLabel toKey) = some m) :
    (g.mergeRelationship digest type fromLabel fromKey toLabel toKey attrs).nodes = g.nodes := by
  rw [mergeRelationship, nodes_addRelationship, mergeNode_of_node? hn, mergeNode_of_node? hm]

end Graph

namespace Indexing

open CodeAtlas.Graph Program
open Syntax (Function Import Outline)

variable {digest : Digest} {g : Graph} {linkLocal : Bool} {localNames : List String}
  {imported : String → String → Option Datum} {functions : List Function} {f : Function} {n : ℕ}
  {o : Outline}

/-! ## Preparing again -/

/-- The graph has the file, its imports and its functions, and none of the imports in it is one that
the file does not have. -/
structure UpToDate (digest : Digest) (o : Outline) (g : Graph) : Prop where
  file_mem : ∃ n, g.node? (fileId digest o.path) = some n
  imports_mem : ∀ i ∈ o.imports, importRelationship digest o.path i ∈ g.relationships
  imports_fresh : ∀ r ∈ g.relationships, isStaleImport digest o.path (wantedImports o.imports)
    (g.edgesFrom importsFrom (fileId digest o.path) []) r = false
  functions_mem : ∀ f ∈ o.functions, ∃ n, g.node? (functionId digest f.name f.path) = some n

theorem addImports_of_mem (hg : g.Textual digest) {path : String} {imports : List Import}
    (h : ∀ i ∈ imports, importRelationship digest path i ∈ g.relationships) :
    addImports digest path imports g = g := by
  induction imports with
  | nil => rfl
  | cons i imports ih =>
    rw [List.forall_mem_cons] at h
    rw [addImports, List.foldl_cons, hg.mergeRelationship_of_mem h.1]
    exact ih h.2

theorem addFunctions_of_node? (h : ∀ f ∈ functions,
    ∃ n, g.node? (functionId digest f.name f.path) = some n) :
    addFunctions digest functions g = g := by
  induction functions with
  | nil => rfl
  | cons f functions ih =>
    rw [List.forall_mem_cons] at h
    obtain ⟨n, hn⟩ := h.1
    rw [addFunctions, List.foldl_cons, mergeNode_of_node? hn]
    exact ih h.2

theorem UpToDate.prepared_eq (h : UpToDate digest o g) (hg : g.Textual digest) :
    prepared digest o g = g := by
  obtain ⟨n, hn⟩ := h.file_mem
  have hsynced : synced digest o.path o.imports g = g := by
    rw [synced, addImports_of_mem hg h.imports_mem]
    exact without_eq_self h.imports_fresh
  rw [prepared, mergeNode_of_node? hn, hsynced]
  exact addFunctions_of_node? h.functions_mem

theorem node?_addFunctions_of_some {id : String} {m : Node} (hm : g.node? id = some m) :
    (addFunctions digest functions g).node? id = some m := by
  induction functions generalizing g with
  | nil => exact hm
  | cons f functions ih => exact ih (node?_mergeNode_of_some hm)

theorem exists_node?_addFunctions (hf : f ∈ functions) : ∃ m,
    (addFunctions digest functions g).node? (functionId digest f.name f.path) = some m := by
  induction functions generalizing g with
  | nil => exact absurd hf List.not_mem_nil
  | cons k functions ih =>
    rcases List.mem_cons.mp hf with rfl | hf
    · obtain ⟨m, hm⟩ := exists_node?_mergeNode digest g functionLabel
        (functionKey (.text f.name) (.text f.path))
      exact ⟨m, node?_addFunctions_of_some (g := g.mergeNode digest functionLabel _) hm⟩
    · exact ih hf

theorem node?_addImports_of_some {path : String} {imports : List Import} {id : String} {m : Node}
    (hm : g.node? id = some m) : (addImports digest path imports g).node? id = some m := by
  induction imports generalizing g with
  | nil => exact hm
  | cons i imports ih => exact ih (node?_mergeRelationship_of_some hm)

section Injective

variable (hd : Function.Injective digest)

include hd

theorem upToDate_prepared (hg : g.Textual digest) : UpToDate digest o (prepared digest o g) := by
  let k := g.mergeNode digest fileLabel (fileKey (.text o.path))
  have hk : k.Textual digest := hg.mergeNode (isText_fileKey o.path)
  have hsynced : (synced digest o.path o.imports k).Textual digest := textual_synced hk
  have hrels : (prepared digest o g).relationships
      = (synced digest o.path o.imports k).relationships := relationships_addFunctions
  refine ⟨?_, ?_, ?_, fun f hf ↦ exists_node?_addFunctions hf⟩
  · obtain ⟨n, hn⟩ := exists_node?_mergeNode digest g fileLabel (fileKey (.text o.path))
    exact ⟨n, node?_addFunctions_of_some (node?_addImports_of_some hn)⟩
  · rw [hrels]
    exact fun i hi ↦ (mem_synced_import hd hk).mpr hi
  · -- The edges are those from which the unwanted ones have been removed, so all of them are wanted.
    have hedges : (prepared digest o g).edgesFrom importsFrom (fileId digest o.path) []
        = (synced digest o.path o.imports k).edgesFrom importsFrom (fileId digest o.path) [] := by
      refine hsynced.edgesFrom_congr (fun _ _ ↦ node?_addFunctions_of_some) ?_
      exact congrArg (List.filter _) hrels
    have hsub : ∀ e ∈ (synced digest o.path o.imports k).edgesFrom importsFrom
        (fileId digest o.path) [],
        e ∈ (addImports digest o.path o.imports k).edgesFrom importsFrom (fileId digest o.path) [] := by
      intro e he
      obtain ⟨r, hr, rfl⟩ := mem_edgesFrom.mp he
      obtain ⟨hmem, hparts⟩ := mem_outgoing.mp hr
      exact mem_edgesFrom.mpr ⟨r, mem_outgoing.mpr ⟨(mem_relationships_without.mp hmem).1, hparts⟩,
        rfl⟩
    intro r hr
    rw [hrels] at hr
    have hfresh := (mem_relationships_without.mp hr).2
    rw [hedges, ← Bool.not_eq_true]
    intro hstale
    rw [isStaleImport, isUnwanted, List.any_eq_true] at hstale
    obtain ⟨e, he, hdoomed⟩ := hstale
    refine hfresh ?_
    rw [isStaleImport, isUnwanted, List.any_eq_true]
    exact ⟨e, hsub e he, hdoomed⟩

/-- Resolving calls does not put the rest out of date. -/
theorem UpToDate.resolvedAll (h : UpToDate digest o g) (hg : g.Textual digest)
    (himported : importedFrom digest g = imported) {outages : Outages} :
    UpToDate digest o
      (resolvedAll digest linkLocal localNames imported outages functions n g) := by
  have hkeeps : ∀ {id : String}, (∃ m, g.node? id = some m) → ∃ m,
      (Indexing.resolvedAll digest linkLocal localNames imported outages functions n g).node? id
        = some m := fun ⟨m, hm⟩ ↦ ⟨m, node?_resolvedAll_of_some hm⟩
  have himport : ∀ type ≠ calls, ∀ sourceId attrs,
      (Indexing.resolvedAll digest linkLocal localNames imported outages functions n g).outgoing type
        sourceId attrs = g.outgoing type sourceId attrs := by
    intro type htype sourceId attrs
    refine filter_resolvedAll fun f _ r hcalls _ ↦ ?_
    rw [hcalls, beq_eq_false_iff_ne.mpr htype.symm, Bool.false_and, Bool.false_and]
  have hne : importsFrom ≠ calls := by decide
  have hout := himport importsFrom hne (fileId digest o.path) []
  refine ⟨hkeeps h.file_mem, fun i hi ↦ ?_, fun r hr ↦ ?_, fun f hf ↦ hkeeps (h.functions_mem f hf)⟩
  · have hmem : importRelationship digest o.path i ∈ g.outgoing importsFrom
        (fileId digest o.path) [] :=
      mem_outgoing.mpr ⟨h.imports_mem i hi, rfl, rfl, includes_nil _⟩
    rw [← hout] at hmem
    exact (mem_outgoing.mp hmem).1
  · rw [hg.edgesFrom_congr (fun _ _ ↦ node?_resolvedAll_of_some) hout]
    rcases mem_of_mem_resolvedAll hd hg himported hr with hmem | ⟨_, _, _, _, rfl⟩
    · exact h.imports_fresh r hmem
    · exact isStaleImport_of_ne (Or.inl hne.symm)

end Injective

/-! ## Resolving again -/

/-- Both ends of every call that is linked are there. -/
def HasEnds (digest : Digest) (linkLocal : Bool) (localNames : List String)
    (imported : String → String → Option Datum) (functions : List Function) (g : Graph) : Prop :=
  ∀ f ∈ functions, (∃ m, g.node? (functionId digest f.name f.path) = some m) ∧
    ∀ n, ∀ w ∈ linkedCalls linkLocal f localNames (imported f.path) Outages.none f.calls n,
      ∃ m, g.node? (nodeId digest functionLabel (functionKey (.text w.1) w.2)) = some m

theorem exists_node?_addCalls {wanted : List (String × Datum)} {w : String × Datum}
    (hw : w ∈ wanted) : ∃ m, (addCalls digest f wanted g).node?
      (nodeId digest functionLabel (functionKey (.text w.1) w.2)) = some m := by
  induction wanted generalizing g with
  | nil => exact absurd hw List.not_mem_nil
  | cons v wanted ih =>
    rcases List.mem_cons.mp hw with rfl | hw
    · let h := g.mergeRelationship digest calls functionLabel
        (functionKey (.text f.name) (.text f.path)) functionLabel (functionKey (.text w.1) w.2) []
      obtain ⟨m, hm⟩ : ∃ m, h.node? (nodeId digest functionLabel (functionKey (.text w.1) w.2))
          = some m := by
        obtain ⟨m, hm⟩ := exists_node?_mergeNode digest _ functionLabel (functionKey (.text w.1) w.2)
        exact ⟨m, (node?_congr (nodes_addRelationship _ _) _).trans hm⟩
      exact ⟨m, node?_addCalls_of_some (g := h) hm⟩
    · exact ih hw

theorem nodes_addCalls_of_node? {wanted : List (String × Datum)} {m : Node}
    (hm : g.node? (functionId digest f.name f.path) = some m)
    (hwanted : ∀ w ∈ wanted,
      ∃ m, g.node? (nodeId digest functionLabel (functionKey (.text w.1) w.2)) = some m) :
    (addCalls digest f wanted g).nodes = g.nodes := by
  induction wanted generalizing g with
  | nil => rfl
  | cons w wanted ih =>
    rw [List.forall_mem_cons] at hwanted
    obtain ⟨⟨t, ht⟩, hwanted⟩ := hwanted
    let h := g.mergeRelationship digest calls functionLabel
      (functionKey (.text f.name) (.text f.path)) functionLabel (functionKey (.text w.1) w.2) []
    have hnodes : h.nodes = g.nodes := nodes_mergeRelationship_of_node? hm ht
    have hfound : ∀ {id : String} {k : Node}, g.node? id = some k → h.node? id = some k :=
      node?_mergeRelationship_of_some
    exact (ih (g := h) (hfound hm) fun v hv ↦ (hwanted v hv).imp fun _ ↦ hfound).trans hnodes

theorem nodes_resolved : (resolved digest linkLocal localNames imported Outages.none f n g).nodes
    = (addCalls digest f (linkedCalls linkLocal f localNames (imported f.path) Outages.none f.calls
        n) g).nodes := rfl

theorem HasEnds.nodes_resolvedAll
    (h : HasEnds digest linkLocal localNames imported functions g) :
    (resolvedAll digest linkLocal localNames imported Outages.none functions n g).nodes = g.nodes := by
  induction functions generalizing g n with
  | nil => rfl
  | cons f functions ih =>
    rw [HasEnds, List.forall_mem_cons] at h
    obtain ⟨⟨⟨m, hm⟩, hlinked⟩, hrest⟩ := h
    have hfirst := nodes_resolved.trans (nodes_addCalls_of_node? hm (hlinked n))
    refine (ih fun k hk ↦ ?_).trans hfirst
    simp only [node?_congr hfirst]
    exact hrest k hk

/-- The ends of what has been linked once are there from then on. -/
theorem hasEnds_resolvedAll (h : ∀ f ∈ functions,
      ∃ m, g.node? (functionId digest f.name f.path) = some m) :
    HasEnds digest linkLocal localNames imported functions
      (resolvedAll digest linkLocal localNames imported Outages.none functions n g) := by
  intro f hf
  refine ⟨(h f hf).imp fun m hm ↦ node?_resolvedAll_of_some hm, fun k w hw ↦ ?_⟩
  clear h
  induction functions generalizing g n with
  | nil => exact absurd hf List.not_mem_nil
  | cons f' functions ih =>
    rcases List.mem_cons.mp hf with rfl | hf
    · rw [linkedCalls_none] at hw
      rw [← linkedCalls_none linkLocal f localNames (imported f.path) f.calls n] at hw
      obtain ⟨m, hm⟩ : ∃ m, (addCalls digest f _ g).node?
          (nodeId digest functionLabel (functionKey (.text w.1) w.2)) = some m :=
        exists_node?_addCalls hw
      let h := resolved digest linkLocal localNames imported Outages.none f n g
      have hfound : h.node? (nodeId digest functionLabel (functionKey (.text w.1) w.2)) = some m :=
        (node?_congr nodes_resolved _).trans hm
      exact ⟨m, node?_resolvedAll_of_some (g := h) hfound⟩
    · exact ih hf

section Injective

variable (hd : Function.Injective digest)

include hd

/-- Resolving twice from one and the same imports leaves the relationships that resolving once
leaves. -/
theorem mem_resolvedAll_resolvedAll (hg : g.Textual digest)
    (himported : importedFrom digest g = imported) {outages : Outages} {r : Relationship} :
    r ∈ (resolvedAll digest linkLocal localNames imported outages functions n
        (resolvedAll digest linkLocal localNames imported outages functions n g)).relationships ↔
      r ∈ (resolvedAll digest linkLocal localNames imported outages functions n g).relationships := by
  have hh : (resolvedAll digest linkLocal localNames imported outages functions n g).Textual digest :=
    textual_resolvedAll hg himported
  have himported' : importedFrom digest
      (resolvedAll digest linkLocal localNames imported outages functions n g) = imported :=
    importedFrom_resolvedAll hg himported
  by_cases hcall : r.type = calls ∧ ∃ name path callee target,
      r.sourceId = functionId digest name path ∧ r.targetId = functionId digest callee target
  · -- Whether a call is kept does not depend on the graph, so the condition is met twice or never.
    obtain ⟨htype, name, path, callee, target, hsource, htarget⟩ := hcall
    rw [mem_resolvedAll_iff hd hh himported' htype hsource htarget,
      mem_resolvedAll_iff hd hg himported htype hsource htarget]
    tauto
  · constructor
    · intro hr
      rcases mem_of_mem_resolvedAll hd hh himported' hr with hmem | ⟨name, path, callee, target, rfl⟩
      · exact hmem
      · exact absurd ⟨rfl, name, path, callee, target, rfl, rfl⟩ hcall
    · intro hr
      refine mem_resolvedAll_of_mem hd hh himported' hr fun name path callee target h ↦ hcall ?_
      obtain ⟨htype, hsource, htarget⟩ := (hh.isCall_iff hd hr).mp h
      exact ⟨htype, name, path, callee, target, hsource, htarget⟩

/-- The calls are resolved by the same imports both times. -/
theorem importedFrom_prepared_registered (linkLocal : Bool) (o : Outline) (hg : g.Textual digest) :
    prepared digest o (registered digest linkLocal o g) = registered digest linkLocal o g ∧
      importedFrom digest (registered digest linkLocal o g)
        = importedFrom digest (prepared digest o g) := by
  have hprepared : (prepared digest o g).Textual digest := textual_prepared hg
  have hupToDate : UpToDate digest o (registered digest linkLocal o g) :=
    (upToDate_prepared hd hg).resolvedAll hd hprepared rfl
  exact ⟨hupToDate.prepared_eq (textual_resolvedAll hprepared rfl),
    importedFrom_resolvedAll hprepared rfl⟩

/-- **Registering again** leaves the nodes as they are and the relationships up to their order. -/
theorem registered_registered (linkLocal : Bool) (o : Outline) (hg : g.Textual digest) :
    (registered digest linkLocal o (registered digest linkLocal o g)).nodes
        = (registered digest linkLocal o g).nodes ∧
      (registered digest linkLocal o (registered digest linkLocal o g)).relationships.Perm
        (registered digest linkLocal o g).relationships := by
  obtain ⟨hprepared, himported⟩ :=
    importedFrom_prepared_registered hd linkLocal o hg
  have hp : (prepared digest o g).Textual digest := textual_prepared hg
  have hh : (registered digest linkLocal o g).Textual digest := textual_resolvedAll hp rfl
  have hagain : registered digest linkLocal o (registered digest linkLocal o g)
      = resolvedAll digest linkLocal (o.functions.map (·.name))
          (importedFrom digest (prepared digest o g)) Outages.none o.functions 0
          (registered digest linkLocal o g) := by
    rw [registered, hprepared, himported]
  have hagainText : (registered digest linkLocal o (registered digest linkLocal o g)).Textual digest :=
    hagain ▸ textual_resolvedAll hh himported
  constructor
  · have hends : HasEnds digest linkLocal (o.functions.map (·.name))
        (importedFrom digest (prepared digest o g)) o.functions (registered digest linkLocal o g) :=
      hasEnds_resolvedAll (upToDate_prepared hd hg).functions_mem
    rw [hagain]
    exact hends.nodes_resolvedAll
  · rw [List.perm_ext_iff_of_nodup (hagainText.relationships_nodup.of_map _)
      (hh.relationships_nodup.of_map _)]
    intro r
    rw [hagain]
    exact mem_resolvedAll_resolvedAll hd hp rfl

end Injective

/-! ## Runs -/

variable {σ : Type} {store : σ → Store} {respond : Responder σ}

/-- **Registration is idempotent.** In a graph of texts that an empty store has reached, registering
a file twice in a row leaves the nodes and the relationships that registering it once leaves, and
the two reports agree but for the functions that are queued. -/
theorem same_graph_of_registered_twice (hserves : Serves digest store respond) {s : σ}
    (hs : (store s).Holds .empty) {history : List Request} (hhistory : ∀ r ∈ history, r.IsTextual)
    (rules : RegistrationRules) (o : Outline)
    (hdigest : Collisionless digest ((history ++ traceAll respond
      [registerFile rules (.ok o), registerFile rules (.ok o)]
        (respond.after history s)).flatMap (Request.hashed digest))) :
    ∃ once twice report report',
      runAll respond [registerFile rules (.ok o)] (respond.after history s)
        = ([.ok (some report)], once) ∧
      runAll respond [registerFile rules (.ok o), registerFile rules (.ok o)]
        (respond.after history s) = ([.ok (some report), .ok (some report')], twice) ∧
      report'.path = report.path ∧ report'.imports = report.imports ∧
      report'.functions = report.functions ∧ report'.calls = report.calls ∧
      ∃ g h, (store once).Holds g ∧ (store twice).Holds h ∧
        h.nodes = g.nodes ∧ h.relationships.Perm g.relationships := by
  obtain ⟨digest', hd, hagree⟩ := exists_injective_eqOn hdigest
  let p := registerFile rules (.ok o)
  let t := respond.after history s
  have hagree' : ∀ r, r ∈ history ∨ r ∈ p.trace respond t ∨
      r ∈ p.trace respond (p.run respond t).2 → ∀ t ∈ r.hashed digest, digest t = digest' t := by
    intro r hr t ht
    refine hagree t (List.mem_flatMap.mpr ⟨r, ?_, ht⟩)
    simp only [traceAll, List.append_nil, List.mem_append]
    exact hr
  obtain ⟨g, hgs, hg⟩ := hserves.exists_textual_after hs hhistory
    fun r hr ↦ hagree' r (Or.inl hr)
  obtain ⟨k, hks, ⟨queued, hreport⟩, rfl⟩ := hserves.run (fun r hr ↦ hagree' r (Or.inr (Or.inl hr)))
    hgs (ends_registerFile_report hg)
  have hk : (registered digest' rules.linkLocal o g).Textual digest' :=
    textual_resolvedAll (textual_prepared hg) rfl
  obtain ⟨l, hls, ⟨queued', hreport'⟩, rfl⟩ := hserves.run
    (fun r hr ↦ hagree' r (Or.inr (Or.inr hr))) hks
    (ends_registerFile_report hk)
  obtain ⟨hprepared, himported⟩ :=
    importedFrom_prepared_registered hd rules.linkLocal o hg
  obtain ⟨hnodes, hrels⟩ := registered_registered hd rules.linkLocal o hg
  rw [hprepared, himported] at hreport'
  have honce : runAll respond [p] t = ([(p.run respond t).1], (p.run respond t).2) := rfl
  have htwice : runAll respond [p, p] t = ([(p.run respond t).1, (p.run respond (p.run respond t).2).1],
      (p.run respond (p.run respond t).2).2) := rfl
  rw [hreport] at honce
  rw [hreport, hreport'] at htwice
  exact ⟨_, _, _, _, honce, htwice, rfl, rfl, rfl, rfl, _, _, hks, hls, hnodes, hrels⟩

/-- A name is imported from two files, and the first of two declarations calls it. -/
def declaredAgain : Outline := ⟨"p", [⟨"b", "r"⟩, ⟨"b", "q"⟩], declaredTwice⟩

/-- The file was registered with other imports before. -/
theorem same_graph_of_registered_twice_declaredAgain :
    (∀ r ∈ importedOnce, r.IsTextual) ∧ ∃ once twice report report',
      runAll Rehearsal.serve [registerFile ⟨true, false, false⟩ (.ok declaredAgain)]
        (Responder.after Rehearsal.serve importedOnce (Rehearsal.new {} .empty))
          = ([.ok (some report)], once) ∧
      runAll Rehearsal.serve [registerFile ⟨true, false, false⟩ (.ok declaredAgain),
        registerFile ⟨true, false, false⟩ (.ok declaredAgain)]
        (Responder.after Rehearsal.serve importedOnce (Rehearsal.new {} .empty))
          = ([.ok (some report), .ok (some report')], twice) ∧
      report'.calls = report.calls ∧
      ∃ g h, once.store.Holds g ∧ twice.store.Holds h ∧
        h.nodes = g.nodes ∧ h.relationships.Perm g.relationships := by
  have htextual : ∀ r ∈ importedOnce, r.IsTextual :=
    fun r hr ↦ (isIndexing_importedOnce r hr).isTextual
  obtain ⟨once, twice, report, report', honce, htwice, -, -, -, hcalls, hgraphs⟩ :=
    same_graph_of_registered_twice Rehearsal.serves (s := Rehearsal.new {} .empty)
      Store.holds_empty htextual ⟨true, false, false⟩ declaredAgain (by decide +kernel)
  exact ⟨htextual, once, twice, report, report', honce, htwice, hcalls, hgraphs⟩

end Indexing

end CodeAtlas
