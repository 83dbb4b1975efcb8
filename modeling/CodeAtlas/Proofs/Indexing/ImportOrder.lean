import CodeAtlas.Proofs.Indexing.Resolution

/-!
# The order of imports, and what it does to calls

If a name is imported from several files, its calls lead to the file of the first import. First
means first in the store, and the store keeps its order from version to version: an import that a
new version still has stays where it is, and only those that are new are put at the end. A file that
has been edited may therefore have its imports in an order that no version of its text has.

`importOrder` says which order that is. The calls of a function that the last version declares are
those that this order leads to, so they are independent of the history as long as the first import
of each called name is the same in this order and in the text. The condition is not idle: at the end
is a file that has been edited and calls another function than the same file does in an empty store.
-/

namespace CodeAtlas.Indexing

open CodeAtlas.Graph Program
open Syntax (Function Import Outline)

/-! ## The order of imports -/

/-- The imports with new ones at the end. -/
def appendNew (old new : List Import) : List Import :=
  new.foldl (fun is i ↦ if i ∈ is then is else is ++ [i]) old

/-- The imports of a file, in the order of the store, after a version with the new ones. -/
def reordered (old new : List Import) : List Import := (appendNew old new).filter (· ∈ new)

/-- The imports of a file, in the order of the store, after some versions of files. -/
def importOrder (versions : List (Except Fault Outline)) (path : String) : List Import :=
  ((versions.filterMap Except.toOption).filter (·.path == path)).foldl
    (fun is o ↦ reordered is o.imports) []

theorem appendNew_cons (old new : List Import) (i : Import) :
    appendNew old (i :: new) = appendNew (if i ∈ old then old else old ++ [i]) new := rfl

theorem mem_appendNew {old new : List Import} {i : Import} :
    i ∈ appendNew old new ↔ i ∈ old ∨ i ∈ new := by
  induction new generalizing old with
  | nil => simp [appendNew]
  | cons j new ih =>
    rw [appendNew_cons, ih, List.mem_cons]
    by_cases hj : j ∈ old
    · rw [if_pos hj]
      refine ⟨Or.imp_right Or.inr, ?_⟩
      rintro (hi | rfl | hi)
      · exact Or.inl hi
      · exact Or.inl hj
      · exact Or.inr hi
    · rw [if_neg hj, List.mem_append, List.mem_singleton, or_assoc]

theorem mem_reordered {old new : List Import} {i : Import} : i ∈ reordered old new ↔ i ∈ new := by
  rw [reordered, List.mem_filter, mem_appendNew, decide_eq_true_iff]
  exact ⟨And.right, fun hi ↦ ⟨Or.inr hi, hi⟩⟩

/-- Of the imports that are looked for, an old one is found first. -/
theorem find?_appendNew (p : Import → Bool) (old new : List Import) :
    (appendNew old new).find? p = (old.find? p).or (new.find? p) := by
  induction new generalizing old with
  | nil => exact Option.or_none.symm
  | cons i new ih =>
    rw [appendNew_cons, ih, List.find?_cons]
    by_cases hi : i ∈ old
    · rw [if_pos hi]
      by_cases hp : p i
      · have hsome : (old.find? p).isSome := List.find?_isSome.mpr ⟨i, hi, hp⟩
        rw [Option.or_of_isSome hsome, Option.or_of_isSome hsome]
      · rw [eq_false_of_ne_true hp]
    · rw [if_neg hi, List.find?_append, List.find?_singleton, Option.or_assoc]
      cases p i <;> rfl

/-- In an empty store the order is that of the text, as far as first imports are concerned. -/
theorem find?_reordered_nil (p : Import → Bool) (new : List Import) :
    (reordered [] new).find? p = new.find? p := by
  have hall : reordered [] new = appendNew [] new := by
    rw [reordered, List.filter_eq_self]
    intro i hi
    rw [decide_eq_true_iff]
    exact (mem_appendNew.mp hi).resolve_left List.not_mem_nil
  rw [hall, find?_appendNew]
  rfl

section Versions

variable {versions : List (Except Fault Outline)} {path : String}

theorem importOrder_append_error {e : Fault} :
    importOrder (versions ++ [.error e]) = importOrder versions := by
  funext path
  rw [importOrder, List.filterMap_append]
  exact congrArg (fun os : List Outline ↦
    (os.filter (·.path == path)).foldl (fun is o ↦ reordered is o.imports) []) (List.append_nil _)

theorem importOrder_append_ok {o : Outline} :
    importOrder (versions ++ [.ok o]) path
      = if o.path = path then reordered (importOrder versions path) o.imports
        else importOrder versions path := by
  have hsnoc : (versions ++ [Except.ok o]).filterMap Except.toOption
      = versions.filterMap Except.toOption ++ [o] := by
    rw [List.filterMap_append]
    rfl
  rw [importOrder, hsnoc, List.filter_append, List.filter_singleton]
  by_cases h : o.path = path
  · rw [if_pos h, beq_iff_eq.mpr h, cond_true, List.foldl_append]
    rfl
  · rw [if_neg h, beq_eq_false_iff_ne.mpr h, cond_false, List.append_nil, importOrder]

/-- Whatever the order, the imports are those of the last version. -/
theorem mem_importOrder {o : Outline} (ho : lastVersion versions path = some o) {i : Import} :
    i ∈ importOrder versions path ↔ i ∈ o.imports := by
  induction versions using List.reverseRecOn with
  | nil => exact absurd ho (by simp [lastVersion])
  | append_singleton versions v ih =>
    cases v with
    | error e =>
      rw [lastVersion_append_error] at ho
      rw [importOrder_append_error]
      exact ih ho
    | ok o' =>
      rw [lastVersion_append_ok] at ho
      rw [importOrder_append_ok]
      by_cases hpath : o'.path = path
      · rw [if_pos hpath] at ho
        obtain rfl := Option.some.inj ho
        rw [if_pos hpath, mem_reordered]
      · rw [if_neg hpath] at ho
        rw [if_neg hpath]
        exact ih ho

end Versions

/-! ## The order in the graph -/

variable {digest : Digest} {g h : Graph} {path : String}

section Injective

variable (hd : Function.Injective digest)

include hd

theorem importRelationship_injective (path : String) :
    Function.Injective (importRelationship digest path) :=
  fun _ _ heq ↦ ((importRelationship_inj hd).mp heq).2

/-- The imports of a file depend on the relationships that leave the file. -/
theorem importsOf_eq (hh : h.Indexed digest) {is : List Import}
    (hout : h.outgoing importsFrom (fileId digest path) []
      = is.map (importRelationship digest path)) : h.importsOf path = is := by
  rw [hh.outgoing_imports hd] at hout
  exact List.map_injective_iff.mpr (importRelationship_injective hd path) hout

theorem importsOf_congr (hg : g.Indexed digest) (hh : h.Indexed digest)
    (hout : h.outgoing importsFrom (fileId digest path) []
      = g.outgoing importsFrom (fileId digest path) []) :
    h.importsOf path = g.importsOf path :=
  importsOf_eq hd hh (hout.trans (hg.outgoing_imports hd path))

/-- An import is added at the end, unless it is there. -/
theorem importsOf_mergeImport (hg : g.Indexed digest) (i : Import) :
    (g.mergeRelationship digest importsFrom fileLabel (fileKey (.text path)) fileLabel
        (fileKey (.text i.source)) [("clause", .text i.clause)]).importsOf path
      = if i ∈ g.importsOf path then g.importsOf path else g.importsOf path ++ [i] := by
  refine importsOf_eq hd (hg.mergeImport hd path i) ?_
  have hout := hg.outgoing_imports hd path
  by_cases hi : i ∈ g.importsOf path
  · have hmem : importRelationship digest path i ∈ g.relationships := (hg.mem_importsOf hd).mp hi
    rw [if_pos hi, outgoing, relationships_mergeRelationship_of_mem hmem]
    exact hout
  · have hnew : importRelationship digest path i ∉ g.relationships :=
      fun hmem ↦ hi ((hg.mem_importsOf hd).mpr hmem)
    rw [if_neg hi, outgoing, hg.textual.relationships_mergeRelationship_of_notMem hd
      (fun _ ↦ Datum.IsText.isScalar) (by simp) (by simp) hnew, List.filter_append, List.map_append]
    refine congrArg₂ (· ++ ·) hout ?_
    rw [List.filter_singleton]
    have hself : (importRelationship digest path i).type == importsFrom
        && (importRelationship digest path i).sourceId == fileId digest path
        && includes (importRelationship digest path i).properties [] := by
      rw [includes_nil, Bool.and_true, Bool.and_eq_true, beq_iff_eq, beq_iff_eq]
      exact ⟨rfl, rfl⟩
    exact (congrArg (fun b ↦ cond b [_] []) hself).trans rfl

theorem indexed_addImports (hg : g.Indexed digest) (path : String) (imports : List Import) :
    (addImports digest path imports g).Indexed digest := by
  induction imports generalizing g with
  | nil => exact hg
  | cons i imports ih => exact ih (hg.mergeImport hd path i)

theorem importsOf_addImports (hg : g.Indexed digest) (imports : List Import) :
    (addImports digest path imports g).importsOf path = appendNew (g.importsOf path) imports := by
  induction imports generalizing g with
  | nil => rfl
  | cons i imports ih =>
    rw [appendNew_cons, ← importsOf_mergeImport hd hg]
    exact ih (hg.mergeImport hd path i)

theorem indexed_synced (hg : g.Indexed digest) (path : String) (imports : List Import) :
    (synced digest path imports g).Indexed digest :=
  (indexed_addImports hd hg path imports).without _

/-- **Syncing reorders**: what is kept stays in its place, and what is new comes after it. -/
theorem importsOf_synced (hg : g.Indexed digest) (imports : List Import) :
    (synced digest path imports g).importsOf path
      = reordered (g.importsOf path) imports := by
  have hadded := indexed_addImports hd hg path imports
  refine importsOf_eq hd (indexed_synced hd hg path imports) ?_
  have hout := hadded.outgoing_imports hd path
  rw [importsOf_addImports hd hg] at hout
  rw [reordered, outgoing, synced, without, List.filter_filter, ← List.filter_filter,
    List.filter_comm]
  refine (congrArg (List.filter _) hout).trans ?_
  rw [List.filter_map]
  refine congrArg _ (List.filter_congr fun i hi ↦ ?_)
  rw [← importsOf_addImports hd hg, hadded.mem_importsOf hd] at hi
  rw [Function.comp_apply, Bool.eq_iff_iff, Bool.not_eq_true', ← Bool.not_eq_true,
    isStaleImport_import hd hadded.textual hi, not_not, decide_eq_true_iff]

/-- What syncing one file does is not seen from another one. -/
theorem importsOf_synced_of_ne (hg : g.Indexed digest) {p : String} (hp : p ≠ path)
    (imports : List Import) : (synced digest p imports g).importsOf path = g.importsOf path := by
  have hsource : (fileId digest p == fileId digest path) = false :=
    beq_eq_false_iff_ne.mpr fun h ↦ hp ((fileId_inj hd).mp h)
  have hadded : (addImports digest p imports g).outgoing importsFrom (fileId digest path) []
      = g.outgoing importsFrom (fileId digest path) [] := by
    clear hg
    induction imports generalizing g with
    | nil => rfl
    | cons i imports ih =>
      refine ih.trans (filter_mergeRelationship ?_)
      rw [includes_nil, Bool.and_true]
      exact Bool.and_eq_false_imp.mpr fun _ ↦ hsource
  refine importsOf_congr hd hg (indexed_synced hd hg p imports) ?_
  refine (filter_without fun r hr hstale ↦ ?_).trans hadded
  by_cases hne : r.sourceId = fileId digest p
  · rw [hne, hsource, Bool.and_false, Bool.false_and]
  · exact absurd hstale (by rw [isStaleImport_of_ne (Or.inr hne)]; exact Bool.false_ne_true)

/-- Before its calls are resolved, a file has the imports of its version, in their order. -/
theorem indexed_prepared (hg : g.Indexed digest) (o : Outline) :
    (prepared digest o g).Indexed digest := by
  have hfile : (g.mergeNode digest fileLabel (fileKey (.text o.path))).Indexed digest :=
    hg.mergeNode (isText_fileKey o.path)
  have hsynced := indexed_synced hd hfile o.path o.imports
  refine hsynced.of_mem (textual_prepared hg.textual) fun r hr ↦ Or.inl ?_
  rwa [prepared, relationships_addFunctions] at hr

theorem importsOf_prepared (hg : g.Indexed digest) (o : Outline) (path : String) :
    (prepared digest o g).importsOf path
      = if o.path = path then reordered (g.importsOf path) o.imports else g.importsOf path := by
  have hfile : (g.mergeNode digest fileLabel (fileKey (.text o.path))).Indexed digest :=
    hg.mergeNode (isText_fileKey o.path)
  have hsynced := indexed_synced hd hfile o.path o.imports
  have hfunctions : (prepared digest o g).importsOf path = (synced digest o.path o.imports
      (g.mergeNode digest fileLabel (fileKey (.text o.path)))).importsOf path := by
    refine importsOf_congr hd hsynced (indexed_prepared hd hg o) ?_
    rw [outgoing, prepared, relationships_addFunctions]
    rfl
  have hnode : (g.mergeNode digest fileLabel (fileKey (.text o.path))).importsOf path
      = g.importsOf path := by
    refine importsOf_congr hd hg hfile ?_
    rw [outgoing, relationships_mergeNode]
    rfl
  rw [hfunctions, ← hnode]
  by_cases hpath : o.path = path
  · subst hpath
    rw [if_pos rfl, importsOf_synced hd hfile]
  · rw [if_neg hpath, importsOf_synced_of_ne hd hfile hpath]

/-- Resolving calls leaves the imports and their order as they are. -/
theorem importsOf_resolvedAll (hg : g.Indexed digest) {linkLocal : Bool}
    {functions names : List Function} {n : ℕ} (path : String) :
    (resolvedAll digest linkLocal (names.map (·.name)) (importedFrom digest g) Outages.none
      functions n g).importsOf path = g.importsOf path := by
  refine importsOf_congr hd hg (hg.resolvedAll hd) (filter_resolvedAll fun f _ r htype _ ↦ ?_)
  have hne : (r.type == importsFrom) = false := by
    rw [htype]
    decide
  rw [hne, Bool.false_and, Bool.false_and]

end Injective

/-! ## Calls and the order of imports -/

/-- The imports of every file are in the order that its versions lead to, and the functions that are
declared call what that order leads to. -/
structure OrderRecorded (digest : Digest) (linkLocal : Bool)
    (versions : List (Except Fault Outline)) (g : Graph) : Prop where
  indexed : g.Indexed digest
  importsOf : ∀ path, g.importsOf path = importOrder versions path
  calls_iff : ∀ path o name f, lastVersion versions path = some o →
    lastDeclaration o.functions name = some f → ∀ callee target,
      callRelationship digest name path callee target ∈ g.relationships ↔ callee ∈ f.calls ∧
        callTarget? linkLocal o.functions path (importOrder versions path) callee = some target

variable {linkLocal : Bool} {versions : List (Except Fault Outline)}

theorem orderRecorded_empty : OrderRecorded digest linkLocal [] .empty where
  indexed := indexed_empty
  importsOf := fun _ ↦ rfl
  calls_iff := fun _ _ _ _ ho ↦ absurd ho (by simp [lastVersion])

theorem OrderRecorded.append_error (hg : OrderRecorded digest linkLocal versions g) {e : Fault} :
    OrderRecorded digest linkLocal (versions ++ [.error e]) g where
  indexed := hg.indexed
  importsOf := by
    rw [importOrder_append_error]
    exact hg.importsOf
  calls_iff := by
    rw [lastVersion_append_error, importOrder_append_error]
    exact hg.calls_iff

/-- Registering a file touches no call from another file. -/
theorem mem_registered_call_of_ne (hd : Function.Injective digest) (hg : g.Textual digest)
    {o : Outline} (ho : o.IsOwn) (hpath : o.path ≠ path) {name callee target : String} :
    callRelationship digest name path callee target
        ∈ (registered digest linkLocal o g).relationships ↔
      callRelationship digest name path callee target ∈ g.relationships := by
  have hmem : ∀ k : Graph, callRelationship digest name path callee target ∈ k.relationships ↔
      callRelationship digest name path callee target
        ∈ k.relationships.filter fun r ↦ r.sourceId == functionId digest name path := by
    intro k
    rw [List.mem_filter, beq_iff_eq]
    exact (and_iff_left rfl).symm
  have hprepared : callRelationship digest name path callee target
      ∈ (prepared digest o g).relationships ↔
        callRelationship digest name path callee target ∈ g.relationships := by
    have hne : calls ≠ importsFrom := by decide
    exact mem_prepared_of_ne hd hg (Or.inl hne)
  rw [← hprepared, hmem, hmem (prepared digest o g), registered, filter_resolvedAll]
  intro f hf r _ hsource
  rw [hsource, beq_eq_false_iff_ne]
  intro hid
  exact hpath ((ho f hf).symm.trans ((functionId_inj hd).mp hid).2)

theorem OrderRecorded.registered (hd : Function.Injective digest)
    (hg : OrderRecorded digest linkLocal versions g) {o : Outline} (ho : o.IsOwn) :
    OrderRecorded digest linkLocal (versions ++ [.ok o]) (registered digest linkLocal o g) where
  indexed := (indexed_prepared hd hg.indexed o).resolvedAll hd
  importsOf path := by
    rw [Indexing.registered, importsOf_resolvedAll hd (indexed_prepared hd hg.indexed o),
      importsOf_prepared hd hg.indexed, importOrder_append_ok, hg.importsOf]
  calls_iff path v name f hv hf callee target := by
    rw [lastVersion_append_ok] at hv
    rw [importOrder_append_ok]
    by_cases hpath : o.path = path
    · rw [if_pos hpath] at hv
      obtain rfl := Option.some.inj hv
      subst hpath
      rw [Indexing.registered, mem_resolvedAll_iff_lastDeclaration hd
        (indexed_prepared hd hg.indexed o) ho hf, importsOf_prepared hd hg.indexed, if_pos rfl,
        if_pos rfl, hg.importsOf]
    · rw [if_neg hpath] at hv
      rw [if_neg hpath, mem_registered_call_of_ne hd hg.indexed.textual ho hpath]
      exact hg.calls_iff path v name f hv hf callee target

theorem OrderRecorded.ends_register (hd : Function.Injective digest)
    (hg : OrderRecorded digest linkLocal versions g) {v : Visit}
    (hv : v.rules.registration.linkLocal = linkLocal) :
    v.register.Ends (Answers digest)
      (fun _ k ↦ OrderRecorded digest linkLocal (versions ++ [v.version]) k) g := by
  rw [Visit.register_eq]
  cases hversion : v.version with
  | error e =>
    refine ends_registerFile_error.mono ?_
    rintro x k rfl
    exact hg.append_error
  | ok o =>
    refine (ends_registerFile hg.indexed.textual).mono ?_
    rintro x k ⟨-, rfl⟩
    rw [hv]
    exact hg.registered hd (Visit.isOwn_version hversion)

/-- How often a call is there after a history. -/
theorem OrderRecorded.countP_isCall (hd : Function.Injective digest)
    (hg : OrderRecorded digest linkLocal versions g) {o : Outline}
    (ho : lastVersion versions path = some o) {name : String} {f : Function}
    (hf : lastDeclaration o.functions name = some f) (callee target : String) :
    g.relationships.countP (g.isCall name path callee target) = if callee ∈ f.calls ∧
        callTarget? linkLocal o.functions path (importOrder versions path) callee = some target
      then 1 else 0 :=
  hg.indexed.countP_isCall hd (hg.calls_iff path o name f ho hf callee target)

/-- A call leads to the file of the first import of its name. -/
theorem callTarget?_congr {functions : List Function} {is js : List Import} {callee : String}
    (h : is.find? (·.clause == callee) = js.find? (·.clause == callee)) :
    callTarget? linkLocal functions path is callee
      = callTarget? linkLocal functions path js callee := by
  rw [callTarget?, callTarget?, h]

/-- With the same imports in another order, a call leads to the same file if the first import of its
name is the same. -/
theorem callTarget?_eq_iff {functions : List Function} {is js : List Import}
    (hmem : ∀ i, i ∈ is ↔ i ∈ js) {callee : String} :
    (∀ target, callTarget? linkLocal functions path is callee = some target ↔
        callTarget? linkLocal functions path js callee = some target) ↔
      is.find? (·.clause == callee) = js.find? (·.clause == callee) := by
  have hnone : ∀ {is js : List Import}, (∀ i, i ∈ is ↔ i ∈ js) →
      is.find? (·.clause == callee) = none → js.find? (·.clause == callee) = none := by
    intro is js hmem h
    rw [List.find?_eq_none] at h ⊢
    exact fun i hi ↦ h i ((hmem i).mpr hi)
  constructor
  · intro h
    cases his : is.find? (·.clause == callee) with
    | none => exact (hnone hmem his).symm
    | some i =>
      cases hjs : js.find? (·.clause == callee) with
      | none => exact absurd ((hnone (fun i ↦ (hmem i).symm) hjs).symm.trans his) (by simp)
      | some j =>
        -- Both imports are of the name that is called, so only their sources could differ.
        have hsource : i.source = j.source := by
          have hi := (h i.source).mp (by rw [callTarget?, his])
          rw [callTarget?, hjs] at hi
          exact (Option.some.inj hi).symm
        have hclause : i.clause = j.clause := by
          have hi := beq_iff_eq.mp (List.find?_some (p := fun i : Import ↦ i.clause == callee) his)
          have hj := beq_iff_eq.mp (List.find?_some (p := fun i : Import ↦ i.clause == callee) hjs)
          exact hi.trans hj.symm
        exact congrArg some (Import.ext hclause hsource)
  · intro h target
    rw [callTarget?_congr h]

/-- A last version of a file is an outline of functions of that file. -/
theorem isOwn_of_lastVersion {visits : List Visit} {o : Outline}
    (ho : lastVersion (visits.map Visit.version) path = some o) : o.IsOwn ∧ o.path = path := by
  rw [lastVersion] at ho
  have hpath := List.find?_some (p := fun o : Outline ↦ o.path == path) ho
  have hmem := List.mem_reverse.mp (List.mem_of_find?_eq_some ho)
  obtain ⟨version, hversion, hok⟩ := List.mem_filterMap.mp hmem
  obtain ⟨v, -, rfl⟩ := List.mem_map.mp hversion
  refine ⟨Visit.isOwn_version (v := v) ?_, beq_iff_eq.mp hpath⟩
  cases hv : v.version with
  | ok p =>
    rw [hv] at hok
    exact congrArg Except.ok (Option.some.inj hok)
  | error e =>
    rw [hv] at hok
    exact absurd hok (by simp [Except.toOption])

private theorem ite_one_zero_eq_iff {P Q : Prop} [Decidable P] [Decidable Q] :
    ((if P then 1 else 0) = if Q then 1 else 0) ↔ (P ↔ Q) := by
  by_cases hP : P <;> by_cases hQ : Q <;> simp [hP, hQ]

section Runs

variable {σ : Type} {store : σ → Store} {respond : Responder σ} {s : σ}

/-- After a history, the functions that the last version of a file declares call what its imports
lead to in the order of the store; in an empty store they call what these lead to in the text. -/
theorem countP_isCall_after_and_alone (hserves : Serves digest store respond)
    (hs : (store s).Holds .empty) (visits : List Visit) (rules : RegistrationRules)
    (hrules : ∀ v ∈ visits, v.rules.registration.linkLocal = rules.linkLocal) {o : Outline}
    (ho : lastVersion (visits.map Visit.version) path = some o)
    (hdigest : Collisionless digest ((traceAll respond (visits.map Visit.register) s
      ++ (registerFile rules (.ok o)).trace respond s).flatMap (Request.hashed digest))) :
    ∃ g h, (store (runAll respond (visits.map Visit.register) s).2).Holds g ∧
      (store ((registerFile rules (.ok o)).run respond s).2).Holds h ∧
      ∀ name f, lastDeclaration o.functions name = some f → ∀ callee target,
        g.relationships.countP (g.isCall name path callee target)
          = (if callee ∈ f.calls ∧ callTarget? rules.linkLocal o.functions path
              (importOrder (visits.map Visit.version) path) callee = some target
            then 1 else 0) ∧
        h.relationships.countP (h.isCall name path callee target)
          = (if callee ∈ f.calls ∧
              callTarget? rules.linkLocal o.functions path o.imports callee = some target
            then 1 else 0) := by
  obtain ⟨digest', hd, hagree⟩ := exists_injective_eqOn hdigest
  have hagree' : ∀ r, r ∈ traceAll respond (visits.map Visit.register) s ∨ _ →
      ∀ t ∈ r.hashed digest, digest t = digest' t :=
    fun r hr t ht ↦ hagree t (List.mem_flatMap.mpr ⟨r, List.mem_append.mpr hr, ht⟩)
  obtain ⟨g, hgs, hg⟩ := hserves.runAll Visit.register
    (fun past g ↦ OrderRecorded digest' rules.linkLocal (past.map Visit.version) g) [] visits
    (fun past v hv g hrecorded ↦ by
      rw [List.map_append, List.map_singleton]
      exact hrecorded.ends_register hd (hrules v hv))
    (fun r hr ↦ hagree' r (Or.inl hr)) hs orderRecorded_empty
  rw [List.nil_append] at hg
  obtain ⟨hown, hpath⟩ := isOwn_of_lastVersion ho
  obtain ⟨h, hhs, -, rfl⟩ := hserves.run (fun r hr ↦ hagree' r (Or.inr hr)) hs
    (ends_registerFile consistent_empty)
  have hh : OrderRecorded digest' rules.linkLocal ([] ++ [.ok o])
      (registered digest' rules.linkLocal o .empty) := orderRecorded_empty.registered hd hown
  have ho' : lastVersion ([] ++ [.ok o]) path = some o := by
    rw [lastVersion_append_ok, if_pos hpath]
  refine ⟨g, _, hgs, hhs, fun name f hf callee target ↦ ⟨hg.countP_isCall hd ho hf _ _, ?_⟩⟩
  have halone : (importOrder ([] ++ [.ok o]) path).find? (·.clause == callee)
      = o.imports.find? (·.clause == callee) := by
    rw [importOrder_append_ok, if_pos hpath]
    exact find?_reordered_nil _ o.imports
  rw [hh.countP_isCall hd ho' hf, callTarget?_congr halone]

/-- **When the history does not matter.** After a history, the functions that the last version of a
file declares call what its imports lead to in the order of the store. This is what they would call
after registering that version in an empty store if and only if the first import of each called name
is the same in that order and in the text. -/
theorem calls_eq_alone_iff (hserves : Serves digest store respond) (hs : (store s).Holds .empty)
    (visits : List Visit) (rules : RegistrationRules)
    (hrules : ∀ v ∈ visits, v.rules.registration.linkLocal = rules.linkLocal) {o : Outline}
    (ho : lastVersion (visits.map Visit.version) path = some o)
    (hdigest : Collisionless digest ((traceAll respond (visits.map Visit.register) s
      ++ (registerFile rules (.ok o)).trace respond s).flatMap (Request.hashed digest))) :
    ∃ g h, (store (runAll respond (visits.map Visit.register) s).2).Holds g ∧
      (store ((registerFile rules (.ok o)).run respond s).2).Holds h ∧
      ∀ name f, lastDeclaration o.functions name = some f →
        (∀ callee target, g.relationships.countP (g.isCall name path callee target)
          = if callee ∈ f.calls ∧ callTarget? rules.linkLocal o.functions path
              (importOrder (visits.map Visit.version) path) callee = some target
            then 1 else 0) ∧
        ((∀ callee target, g.relationships.countP (g.isCall name path callee target)
          = h.relationships.countP (h.isCall name path callee target)) ↔
        ∀ c ∈ f.calls, (importOrder (visits.map Visit.version) path).find? (·.clause == c)
          = o.imports.find? (·.clause == c)) := by
  obtain ⟨g, h, hgs, hhs, hcalls⟩ :=
    countP_isCall_after_and_alone hserves hs visits rules hrules ho hdigest
  refine ⟨g, h, hgs, hhs, fun name f hf ↦ ⟨fun c q ↦ (hcalls name f hf c q).1, ?_⟩⟩
  simp only [(hcalls name f hf _ _).1, (hcalls name f hf _ _).2, ite_one_zero_eq_iff,
    and_congr_right_iff]
  refine forall_congr' fun c ↦ ?_
  rw [forall_comm]
  refine forall_congr' fun _ ↦ ?_
  exact callTarget?_eq_iff fun i ↦ mem_importOrder ho

end Runs

/-! ## An import that is put before another one -/

/-- The file imports one function. -/
def beforeInsertion : Outline where
  path := "/a.ts"
  imports := [⟨"b", "/y.ts"⟩]
  functions := [⟨"a", "/a.ts", "function a() \x7b b(); \x7d", 2, 2, ["b"]⟩]

/-- The file imports a function of the same name from elsewhere, and that comes first. -/
def afterInsertion : Outline where
  path := "/a.ts"
  imports := [⟨"b", "/x.ts"⟩, ⟨"b", "/y.ts"⟩]
  functions := [⟨"a", "/a.ts", "function a() \x7b b(); \x7d", 3, 3, ["b"]⟩]

def insertion : List Visit :=
  [loneVisit "import \x7bb as c\x7d from './y';\nfunction a() \x7b b(); \x7d\n",
    loneVisit ("import \x7bb\x7d from './x';\n"
      ++ "import \x7bb as c\x7d from './y';\nfunction a() \x7b b(); \x7d\n")]

theorem version_insertion :
    insertion.map Visit.version = [.ok beforeInsertion, .ok afterInsertion] := by
  rw [insertion, List.map_cons, List.map_cons, List.map_nil,
    version_loneVisit (o := beforeInsertion) (by decide +kernel),
    version_loneVisit (o := afterInsertion) (by decide +kernel)]

theorem register_insertion : insertion.map Visit.register =
    [registerFile ⟨false, false, false⟩ (.ok beforeInsertion),
      registerFile ⟨false, false, false⟩ (.ok afterInsertion)] := by
  have h : ∀ v ∈ insertion,
      v.register = (registerFile ⟨false, false, false⟩ ∘ Visit.version) v := by
    rw [insertion, List.forall_mem_cons, List.forall_mem_singleton]
    exact ⟨rfl, rfl⟩
  rw [List.map_congr_left h, ← List.map_map, version_insertion]
  rfl

theorem lastVersion_insertion :
    lastVersion (insertion.map Visit.version) "/a.ts" = some afterInsertion := by
  rw [version_insertion]
  rfl

theorem collisionless_insertion : Collisionless Text.Digest.ofText
    ((traceAll Rehearsal.serve (insertion.map Visit.register) (Rehearsal.new {} .empty)
      ++ (registerFile ⟨false, false, false⟩ (.ok afterInsertion)).trace Rehearsal.serve
        (Rehearsal.new {} .empty)).flatMap (Request.hashed Text.Digest.ofText)) := by
  rw [register_insertion]
  decide +kernel

/-- After the insertion the function calls what it would not call in an empty store. -/
theorem calls_eq_alone_iff_insertion : ∃ g h,
    (runAll Rehearsal.serve (insertion.map Visit.register) (Rehearsal.new {} .empty)).2.store.Holds
      g ∧
    ((registerFile ⟨false, false, false⟩ (.ok afterInsertion)).run Rehearsal.serve
      (Rehearsal.new {} .empty)).2.store.Holds h ∧
    g.relationships.countP (g.isCall "a" "/a.ts" "b" "/y.ts") = 1 ∧
    ¬ ∀ callee target, g.relationships.countP (g.isCall "a" "/a.ts" callee target)
      = h.relationships.countP (h.isCall "a" "/a.ts" callee target) := by
  obtain ⟨g, h, hg, hh, hcalls⟩ := calls_eq_alone_iff Rehearsal.serves
    (s := Rehearsal.new {} .empty) Store.holds_empty insertion ⟨false, false, false⟩ (by decide)
    lastVersion_insertion collisionless_insertion
  obtain ⟨hcount, heq⟩ := hcalls "a" _ rfl
  have horder : importOrder (insertion.map Visit.version) "/a.ts"
      = [⟨"b", "/y.ts"⟩, ⟨"b", "/x.ts"⟩] := by
    rw [version_insertion]
    decide
  rw [horder] at hcount heq
  refine ⟨g, h, hg, hh, hcount "b" "/y.ts", ?_⟩
  rw [heq]
  decide

/-- **The history matters**: that the functions of the last version call what they would call in an
empty store is not so. -/
theorem not_forall_calls_eq_alone : ¬ ∀ (visits : List Visit) (rules : RegistrationRules),
    (∀ v ∈ visits, v.rules.registration.linkLocal = rules.linkLocal) → ∀ path o,
    lastVersion (visits.map Visit.version) path = some o →
    Collisionless Text.Digest.ofText
      ((traceAll Rehearsal.serve (visits.map Visit.register) (Rehearsal.new {} .empty)
        ++ (registerFile rules (.ok o)).trace Rehearsal.serve (Rehearsal.new {} .empty)).flatMap
          (Request.hashed Text.Digest.ofText)) →
    ∀ g h, (runAll Rehearsal.serve (visits.map Visit.register)
        (Rehearsal.new {} .empty)).2.store.Holds g →
      ((registerFile rules (.ok o)).run Rehearsal.serve (Rehearsal.new {} .empty)).2.store.Holds h →
    ∀ name f, lastDeclaration o.functions name = some f → ∀ callee target,
      g.relationships.countP (g.isCall name path callee target)
        = h.relationships.countP (h.isCall name path callee target) := by
  intro heq
  obtain ⟨g, h, hg, hh, hcalls⟩ := countP_isCall_after_and_alone Rehearsal.serves
    (s := Rehearsal.new {} .empty) Store.holds_empty insertion ⟨false, false, false⟩ (by decide)
    lastVersion_insertion collisionless_insertion
  obtain ⟨hcount, hcount'⟩ := hcalls "a" _ rfl "b" "/x.ts"
  have hsame := heq insertion ⟨false, false, false⟩ (by decide) "/a.ts" _ lastVersion_insertion
    collisionless_insertion g h hg hh "a" _ rfl "b" "/x.ts"
  rw [hcount, hcount', version_insertion] at hsame
  exact absurd hsame (by decide)

end CodeAtlas.Indexing
