import CodeAtlas.Proofs.Indexing.ImportRequests
import CodeAtlas.Proofs.Program.Stages

/-!
# Registrations of one file that overlap

Two registrations of one file, of an older and of a newer version, are not kept apart: nothing stops
the older one from making its requests after the newer one has made its own. What the imports of the
file are in the end depends on the order of the requests.

The invariant of such a run has a part for every registration. While it is merging imports, those
that it still has to merge are known. Afterwards it has a list of imports to delete; this contains
every import in the graph that no registration has merged. So nothing is left in the end of what
none of the versions has, and what all of them have is there. An import of some of the versions is
there unless it is undone, that is, unless the last that was asked about it is to delete it. In
particular the imports are not always those of the newer version: an import of the older one stays
if it is merged late.
-/

namespace CodeAtlas.Indexing

open CodeAtlas.Graph Program
open Syntax (Function Import Outline)

/-! ## Stages of a registration -/

/-- How far a registration has come with the imports of its file. -/
inductive Stage where
  /-- These imports have to be merged, and nothing has been listed so far. -/
  | merging (todo : List Import)
  /-- These imports have been listed and have to be deleted. -/
  | deleting (todo : List Import)

/-- The requests of a registration that wants the imports, at its stages. -/
inductive Step (path : String) (wanted : List Import) :
    Stage → (r : Request) → Except Fault r.Reply → Stage → Prop
  | merge {i todo x} :
      Step path wanted (.merging (i :: todo)) (mergeRequest path i) x (.merging todo)
  | find {found : List Import} : Step path wanted (.merging []) (findRequest path)
      (.ok (found.map edgeOf)) (.deleting (found.filter (· ∉ wanted)))
  | delete {i todo x} :
      Step path wanted (.deleting (i :: todo)) (deleteRequest path i) x (.deleting todo)
  | aside {c r x} : IsAside path r → Step path wanted c r x c

/-- The replies that are given over graphs that indexing reaches. -/
def IsReply (digest : Digest) (r : Request) (x : Except Fault r.Reply) : Prop :=
  ∃ g h : Graph, g.Indexed digest ∧ Answers digest r g x h

variable {digest : Digest} {path : String} {wanted : List Import} {c c' : Stage} {i : Import}
  {r : Request} {x : Except Fault r.Reply} {g h : Graph}

theorem Step.isIndexing (hstep : Step path wanted c r x c') : r.IsIndexing := by
  cases hstep with
  | merge => exact isIndexing_mergeRequest
  | find | delete => trivial
  | aside hr => exact hr.isIndexing

/-- **What a step does** to the imports of the file can be told from its request. -/
theorem Step.mem_importsOf (hd : Function.Injective digest) (hg : g.Indexed digest)
    (hx : Answers digest r g x h) (hstep : Step path wanted c r x c') :
    i ∈ h.importsOf path ↔
      r = mergeRequest path i ∨ i ∈ g.importsOf path ∧ r ≠ deleteRequest path i := by
  cases hstep with
  | merge =>
    rw [(mem_importsOf_merge hd hg hx).2, mergeRequest_inj, or_comm]
    exact or_congr eq_comm (and_iff_left (by simp)).symm
  | find =>
    obtain ⟨-, rfl⟩ := importsOf_find hd hg hx
    simp
  | delete =>
    rw [(mem_importsOf_delete hd hg hx).2, or_iff_right (by simp)]
    exact and_congr_right fun _ ↦ not_congr (eq_comm.trans deleteRequest_inj.symm)
  | aside hr =>
    rw [hr.mem_importsOf hd hg hx]
    simp [hr.ne_mergeRequest i, hr.ne_deleteRequest i]

/-! ## The invariant -/

variable {past past' : List Request} {present present' : List Import}

/-- What a step adds has been merged. -/
theorem Step.merged_of_mem (hd : Function.Injective digest) (hg : g.Indexed digest)
    (hx : Answers digest r g x h) (hstep : Step path wanted c r x c') (hi : i ∈ h.importsOf path) :
    i ∈ g.importsOf path ∨ mergeRequest path i ∈ past ++ [r] := by
  rcases (hstep.mem_importsOf hd hg hx).mp hi with rfl | ⟨hi, -⟩
  · exact Or.inr (List.mem_append_right _ List.mem_cons_self)
  · exact Or.inl hi

/-- What is known of a registration at its stage, given the requests of all registrations so far and
the imports in the graph. -/
def Progress (path : String) (past : List Request) (present wanted : List Import) : Stage → Prop
  | .merging todo => (∀ i ∈ todo, i ∈ wanted) ∧
      ∀ i ∈ wanted, i ∈ todo ∨ mergeRequest path i ∈ past
  | .deleting todo => (∀ i ∈ todo, i ∉ wanted) ∧ (∀ i ∈ wanted, mergeRequest path i ∈ past) ∧
      ∀ i ∈ present, i ∈ todo ∨ mergeRequest path i ∈ past

/-- Others do not set a registration back: what they add they have merged. -/
theorem Progress.mono (hc : Progress path past present wanted c) (hpast : past ⊆ past')
    (hpresent : ∀ i ∈ present', i ∈ present ∨ mergeRequest path i ∈ past') :
    Progress path past' present' wanted c := by
  cases c with
  | merging todo => exact ⟨hc.1, fun i hi ↦ (hc.2 i hi).imp_right fun h ↦ hpast h⟩
  | deleting todo =>
    obtain ⟨hunwanted, hmerged, hlisted⟩ := hc
    refine ⟨hunwanted, fun i hi ↦ hpast (hmerged i hi), fun i hi ↦ ?_⟩
    rcases hpresent i hi with hi | hi
    · exact (hlisted i hi).imp_right fun h ↦ hpast h
    · exact Or.inr hi

/-- A registration makes progress by its own steps. -/
theorem Step.progress (hd : Function.Injective digest) (hg : g.Indexed digest)
    (hx : Answers digest r g x h) (hstep : Step path wanted c r x c')
    (hc : Progress path past (g.importsOf path) wanted c) :
    Progress path (past ++ [r]) (h.importsOf path) wanted c' := by
  have hold : ∀ i, mergeRequest path i ∈ past → mergeRequest path i ∈ past ++ [r] :=
    fun i hi ↦ List.mem_append_left _ hi
  have hpresent : ∀ i ∈ h.importsOf path,
      i ∈ g.importsOf path ∨ mergeRequest path i ∈ past ++ [r] :=
    fun i hi ↦ hstep.merged_of_mem hd hg hx hi
  cases hstep with
  | @merge j todo x =>
    obtain ⟨hwanted, hmerged⟩ := hc
    refine ⟨fun i hi ↦ hwanted i (List.mem_cons_of_mem _ hi), fun i hi ↦ ?_⟩
    rcases hmerged i hi with hi | hi
    · rcases List.mem_cons.mp hi with rfl | hi
      · exact Or.inr (List.mem_append_right _ List.mem_cons_self)
      · exact Or.inl hi
    · exact Or.inr (hold i hi)
  | @find found =>
    -- What is listed is what is there, and what the registration wants it has merged.
    obtain ⟨hfound, rfl⟩ := importsOf_find hd hg hx
    have hsame : found = h.importsOf path :=
      List.map_injective_iff.mpr edgeOf_injective (Except.ok.inj hfound)
    have hmerged : ∀ i ∈ wanted, mergeRequest path i ∈ past :=
      fun i hi ↦ (hc.2 i hi).resolve_left List.not_mem_nil
    have hunwanted : ∀ i ∈ found.filter (· ∉ wanted), i ∉ wanted :=
      fun i hi ↦ of_decide_eq_true (List.mem_filter.mp hi).2
    refine ⟨hunwanted, fun i hi ↦ hold i (hmerged i hi), fun i hi ↦ ?_⟩
    by_cases hw : i ∈ wanted
    · exact Or.inr (hold i (hmerged i hw))
    · exact Or.inl (List.mem_filter.mpr ⟨hsame ▸ hi, decide_eq_true hw⟩)
  | @delete j todo x =>
    obtain ⟨hunwanted, hmerged, hlisted⟩ := hc
    refine ⟨fun i hi ↦ hunwanted i (List.mem_cons_of_mem _ hi), fun i hi ↦ hold i (hmerged i hi),
      fun i hi ↦ ?_⟩
    obtain ⟨hi, hne⟩ := (mem_importsOf_delete hd hg hx).2.mp hi
    rcases hlisted i hi with hi | hi
    · exact Or.inl ((List.mem_cons.mp hi).resolve_left hne)
    · exact Or.inr (hold i hi)
  | aside => exact hc.mono (List.subset_append_left _ _) hpresent

/-- Registrations of some versions of a file have come to some stages and made some requests. -/
structure Overlap (digest : Digest) (path : String) (versions : List (List Import))
    (stages : List (List Import × Stage)) (past : List Request) (g : Graph) : Prop where
  indexed : g.Indexed digest
  wanted_mem : ∀ l ∈ stages, l.1 ∈ versions
  merged : ∀ i, mergeRequest path i ∈ past → ∃ wanted ∈ versions, i ∈ wanted
  deleted : ∀ i, deleteRequest path i ∈ past → ∃ wanted ∈ versions, i ∉ wanted
  not_isUndone : ∀ i ∈ g.importsOf path, ¬ IsUndone path i past
  mem_of_merged : ∀ i, mergeRequest path i ∈ past → ¬ IsUndone path i past → i ∈ g.importsOf path
  progress : ∀ l ∈ stages, Progress path past (g.importsOf path) l.1 l.2

theorem overlap_start (hg : g.Indexed digest) (versions : List (List Import)) :
    Overlap digest path versions (versions.map fun wanted ↦ (wanted, .merging wanted)) [] g where
  indexed := hg
  wanted_mem := by
    rw [List.forall_mem_map]
    exact fun _ hwanted ↦ hwanted
  merged := fun _ hi ↦ absurd hi List.not_mem_nil
  deleted := fun _ hi ↦ absurd hi List.not_mem_nil
  not_isUndone := fun _ _ ↦ not_isUndone_nil
  mem_of_merged := fun _ hi ↦ absurd hi List.not_mem_nil
  progress := by
    rw [List.forall_mem_map]
    exact fun _ _ ↦ ⟨fun _ hi ↦ hi, fun _ hi ↦ Or.inl hi⟩

/-- What a registration merges it wants, and what it deletes it does not want. -/
theorem Step.wanted_of_request (hstep : Step path wanted c r x c')
    (hc : Progress path past present wanted c) :
    (r = mergeRequest path i → i ∈ wanted) ∧ (r = deleteRequest path i → i ∉ wanted) := by
  cases hstep with
  | merge =>
    refine ⟨fun h ↦ ?_, fun h ↦ absurd h (by simp)⟩
    obtain rfl := mergeRequest_inj.mp h
    exact hc.1 _ List.mem_cons_self
  | find => exact ⟨fun h ↦ absurd h (by simp), fun h ↦ absurd h (by simp)⟩
  | delete =>
    refine ⟨fun h ↦ absurd h (by simp), fun h ↦ ?_⟩
    obtain rfl := deleteRequest_inj.mp h
    exact hc.1 _ List.mem_cons_self
  | aside hr =>
    exact ⟨fun h ↦ absurd h (hr.ne_mergeRequest i), fun h ↦ absurd h (hr.ne_deleteRequest i)⟩

/-- **One step** of one of the registrations. -/
theorem Overlap.step (hd : Function.Injective digest) {versions : List (List Import)}
    {before after : List (List Import × Stage)}
    (ho : Overlap digest path versions (before ++ (wanted, c) :: after) past g)
    (hx : Answers digest r g x h) (hstep : Step path wanted c r x c') :
    Overlap digest path versions (before ++ (wanted, c') :: after) (past ++ [r]) h := by
  have heffect : ∀ i, i ∈ h.importsOf path ↔
      r = mergeRequest path i ∨ i ∈ g.importsOf path ∧ r ≠ deleteRequest path i :=
    fun i ↦ hstep.mem_importsOf hd ho.indexed hx
  have hwanted := ho.wanted_mem
  have hprogress := ho.progress
  rw [List.forall_mem_append, List.forall_mem_cons] at hwanted hprogress
  obtain ⟨hbefore, hown, hafter⟩ := hprogress
  have hrequest : ∀ i, (r = mergeRequest path i → i ∈ wanted) ∧
      (r = deleteRequest path i → i ∉ wanted) := fun i ↦ hstep.wanted_of_request hown
  refine ⟨ho.indexed.answers hd hstep.isIndexing hx, ?wanted_mem, ?merged, ?deleted, ?not_isUndone,
    ?mem_of_merged, ?progress⟩
  case wanted_mem =>
    rw [List.forall_mem_append, List.forall_mem_cons]
    exact hwanted
  case merged =>
    intro i hi
    rcases List.mem_append.mp hi with hi | hi
    · exact ho.merged i hi
    · exact ⟨wanted, hwanted.2.1, (hrequest i).1 (List.mem_singleton.mp hi).symm⟩
  case deleted =>
    intro i hi
    rcases List.mem_append.mp hi with hi | hi
    · exact ho.deleted i hi
    · exact ⟨wanted, hwanted.2.1, (hrequest i).2 (List.mem_singleton.mp hi).symm⟩
  case not_isUndone =>
    intro i hi hundone
    rcases (heffect i).mp hi with rfl | ⟨hi, hne⟩
    · exact (isUndone_concat.mp hundone).elim (fun h ↦ absurd h (by simp)) fun h ↦ h.2 rfl
    · exact (isUndone_concat.mp hundone).elim hne fun h ↦ ho.not_isUndone i hi h.1
  case mem_of_merged =>
    intro i hi hundone
    rw [isUndone_concat, not_or, not_and_or, ne_eq, not_not] at hundone
    rw [heffect]
    rcases hundone.2 with hundone' | hmerge
    · rcases List.mem_append.mp hi with hi | hi
      · exact Or.inr ⟨ho.mem_of_merged i hi hundone', hundone.1⟩
      · exact Or.inl (List.mem_singleton.mp hi).symm
    · exact Or.inl hmerge
  case progress =>
    -- The others see that the request was made, and at most an import more that has been merged.
    have hothers : ∀ l : List Import × Stage, Progress path past (g.importsOf path) l.1 l.2 →
        Progress path (past ++ [r]) (h.importsOf path) l.1 l.2 :=
      fun l hl ↦ hl.mono (List.subset_append_left _ _)
        fun i hi ↦ hstep.merged_of_mem hd ho.indexed hx hi
    rw [List.forall_mem_append, List.forall_mem_cons]
    exact ⟨fun l hl ↦ hothers l (hbefore l hl), hstep.progress hd ho.indexed hx hown,
      fun l hl ↦ hothers l (hafter l hl)⟩

/-- **What is left**, when all registrations have nothing more to delete. -/
theorem Overlap.mem_importsOf {versions : List (List Import)} {stages : List (List Import × Stage)}
    (ho : Overlap digest path versions stages past g) (hne : versions ≠ [])
    (hstages : stages.map (·.1) = versions) (hended : ∀ l ∈ stages, l.2 = .deleting []) :
    i ∈ g.importsOf path ↔ (∃ wanted ∈ versions, i ∈ wanted) ∧ ¬ IsUndone path i past := by
  have hlane : ∀ wanted ∈ versions,
      Progress path past (g.importsOf path) wanted (.deleting []) := by
    intro wanted hwanted
    rw [← hstages] at hwanted
    obtain ⟨l, hl, rfl⟩ := List.mem_map.mp hwanted
    exact hended l hl ▸ ho.progress l hl
  constructor
  · intro hi
    obtain ⟨wanted, hwanted⟩ := List.exists_mem_of_ne_nil versions hne
    have hmerged := ((hlane wanted hwanted).2.2 i hi).resolve_left List.not_mem_nil
    exact ⟨ho.merged i hmerged, ho.not_isUndone i hi⟩
  · rintro ⟨⟨wanted, hwanted, hi⟩, hundone⟩
    exact ho.mem_of_merged i ((hlane wanted hwanted).2.1 i hi) hundone

/-! ## Registering keeps to the steps -/

section Steps

variable {todo found : List Import}

/-- What is found over a graph that indexing reaches is made of texts. -/
theorem IsReply.isTextualReply (hx : IsReply digest r x) : r.IsTextualReply x := by
  obtain ⟨g, h, hg, hx⟩ := hx
  cases r with
  | findRelationships type fromLabel fromKey attrs =>
    rintro edges rfl e he
    rw [Answers, answer?] at hx
    split_ifs at hx
    · rw [hg.textual.findRelationships_eq] at hx
      obtain rfl := Except.ok.inj hx.1
      obtain ⟨q, -, rfl⟩ := mem_edgesFrom.mp he
      exact Textual.isText_propertiesAt hg.textual _
    · exact absurd hx.1 (by simp)
  | _ => trivial

theorem passes_orRefused {α : Type} {S : α → Stage → Prop} {p : Program α}
    {message : Fault → String} {substitute : α}
    (hp : p.Passes (IsReply digest) (Step path wanted) S c) :
    (orRefused p message substitute).Passes (IsReply digest) (Step path wanted) S c := by
  refine hp.attempt.bind ?_
  rintro x c ⟨a, rfl, ha⟩
  exact passes_pure ha

theorem passes_mergeFile :
    (mergeFile path).Passes (IsReply digest) (Step path wanted) (fun _ c' ↦ c' = c) c := by
  have hrequest : (request (.mergeNode fileLabel (fileKey (.text path)))).Passes (IsReply digest)
      (Step path wanted) (fun _ c' ↦ c' = c) c := by
    refine passes_request ?_
    rintro x ⟨g, h, -, hx⟩
    have hanswer : (Answers digest).Only (.mergeNode fileLabel (fileKey (.text path))) g _ _ :=
      only_answer rfl
    obtain ⟨rfl, -⟩ := hanswer x h hx
    exact ⟨_, rfl, c, .aside .mergeFile, rfl⟩
  exact passes_orRefused (hrequest.bind fun _ _ hc ↦ passes_pure hc)

variable (hd : Function.Injective digest)

include hd

theorem passes_mergeImport :
    (mergeImport path i.source i.clause).Passes (IsReply digest) (Step path wanted)
      (fun _ c' ↦ c' = .merging todo) (.merging (i :: todo)) := by
  have hrequest : (request (mergeRequest path i)).Passes (IsReply digest) (Step path wanted)
      (fun _ c' ↦ c' = .merging todo) (.merging (i :: todo)) := by
    refine passes_request ?_
    rintro x ⟨g, h, hg, hx⟩
    obtain ⟨id, rfl⟩ := (mem_importsOf_merge (i := i) hd hg hx).1
    exact ⟨id, rfl, _, .merge, rfl⟩
  exact passes_orRefused (hrequest.bind fun _ _ hc ↦ passes_pure hc)

theorem passes_mergeImports :
    (mergeImports path todo).Passes (IsReply digest) (Step path wanted)
      (fun _ c' ↦ c' = .merging []) (.merging todo) := by
  induction todo with
  | nil => exact passes_pure rfl
  | cons i todo ih =>
    refine (passes_mergeImport hd).bind ?_
    rintro _ c rfl
    exact ih.bind fun _ _ hc ↦ passes_pure hc

theorem passes_deleteImport :
    (deleteImport path (.text i.source) (.text i.clause)).Passes (IsReply digest)
      (Step path wanted) (fun _ c' ↦ c' = .deleting todo) (.deleting (i :: todo)) := by
  refine passes_orRefused (passes_request ?_)
  rintro x ⟨g, h, hg, hx⟩
  obtain ⟨n, rfl⟩ := (mem_importsOf_delete (i := i) hd hg hx).1
  exact ⟨n, rfl, _, .delete, rfl⟩

theorem passes_deleteStaleImports :
    (deleteStaleImports path (wantedImports wanted) (found.map edgeOf)).Passes (IsReply digest)
      (Step path wanted) (fun _ c' ↦ c' = .deleting [])
      (.deleting (found.filter (· ∉ wanted))) := by
  induction found with
  | nil => exact passes_pure rfl
  | cons i found ih =>
    rw [List.map_cons, (deletesUnwanted_imports path _).cons, propertyOf_clause_edgeOf,
      propertyOf_path_edgeOf, isWanted_of_scalar _ (Datum.isScalar_text i.clause)
        (Datum.isScalar_text i.source)]
    by_cases hi : i ∈ wanted
    · have hwants : wants (wantedImports wanted) (.text i.clause) (.text i.source) = true :=
        wants_wantedImports.mpr hi
      rw [hwants, List.filter_cons_of_neg (by simpa using hi)]
      exact ih
    · have hwants : wants (wantedImports wanted) (.text i.clause) (.text i.source) = false :=
        eq_false_of_ne_true (mt wants_wantedImports.mp hi)
      rw [hwants, List.filter_cons_of_pos (by simpa using hi)]
      refine (passes_deleteImport hd).bind ?_
      rintro _ c rfl
      exact ih

theorem passes_syncImports :
    (syncImports path wanted).Passes (IsReply digest) (Step path wanted)
      (fun _ c' ↦ c' = .deleting []) (.merging wanted) := by
  refine (passes_mergeImports hd).bind ?_
  rintro merged c rfl
  have hfind : (request (findRequest path)).Passes (IsReply digest) (Step path wanted)
      (fun edges c' ↦ ∃ found : List Import, edges = found.map edgeOf ∧
        c' = .deleting (found.filter (· ∉ wanted))) (.merging []) := by
    refine passes_request ?_
    rintro x ⟨g, h, hg, hx⟩
    obtain ⟨rfl, -⟩ := importsOf_find hd hg hx
    exact ⟨_, rfl, _, .find, _, rfl, rfl⟩
  refine hfind.attempt.bind ?_
  rintro x c ⟨edges, rfl, found, rfl, rfl⟩
  exact (passes_deleteStaleImports hd).bind fun _ _ hc ↦ passes_pure hc

/-- **Registering a file keeps to the steps**, and has nothing to delete in the end. -/
theorem follows_registerFile {rules : RegistrationRules} {o : Outline} (ho : o.IsOwn) :
    (registerFile rules (.ok o)).Follows (IsReply digest) (Step o.path o.imports)
      (fun _ c' ↦ c' = .deleting []) (.merging o.imports) := by
  have haside : ∀ {α : Type} {Q : α → Prop} {p : Program α}, AsksOfFunctions o.path Q p →
      p.Follows (IsReply digest) (Step o.path o.imports) (fun _ c' ↦ c' = .deleting [])
        (.deleting []) :=
    fun hp ↦ hp.follows (fun _ _ hx ↦ hx.isTextualReply) fun _ _ hr _ ↦ .aside (.ofFunctions hr)
  have houtline : (registerOutline rules o).Follows (IsReply digest) (Step o.path o.imports)
      (fun _ c' ↦ c' = .deleting []) (.merging o.imports) := by
    refine passes_mergeFile.bind ?_
    rintro _ c rfl
    refine (passes_syncImports hd).bind ?_
    rintro _ c rfl
    refine (haside asks_registerFunctions).bind ?_ fun _ _ hc ↦ hc
    rintro _ c rfl
    refine (haside (asks_resolveFunctions ho)).bind ?_ fun _ _ hc ↦ hc
    rintro _ c rfl
    exact rfl
  refine houtline.attempt.bind ?_
  rintro x c rfl
  cases x with
  | ok registration => exact rfl
  | error e =>
    dsimp only
    split
    · exact (haside (Q := fun _ ↦ True) ((asks_request (.note _)).bind fun _ _ ↦ asks_pure trivial))
    · exact rfl

end Steps

/-! ## The imports after overlapping registrations -/

section Runs

variable {σ : Type} {store : σ → Store} {respond : Responder σ} {s t : σ}

/-- The listing that the store gives of the imports of a file. -/
theorem findRelationships_imports {digest' : Digest} {s : Store}
    (hg : g.Indexed digest') (hd : Function.Injective digest') (hs : s.Holds g)
    (hagree : digest (nodeText fileLabel (fileKey (.text path)))
      = digest' (nodeText fileLabel (fileKey (.text path)))) :
    s.findRelationships digest importsFrom fileLabel (fileKey (.text path)) []
      = .ok ((g.importsOf path).map edgeOf) := by
  have hsame : ∀ t ∈ (findRequest path).hashed digest, digest t = digest' t := by
    have hhashed : (findRequest path).hashed digest = [nodeText fileLabel (fileKey (.text path))] :=
      rfl
    rw [hhashed, List.forall_mem_singleton]
    exact hagree
  have hanswer := answer?_store digest hs (findRequest path)
  rw [answer?_congr hsame, answer?_findRelationships hg.textual importsFrom fileLabel none
    (isScalar_fileKey (Datum.isScalar_text path))] at hanswer
  obtain ⟨t, ht, -⟩ := hanswer
  rw [← hg.edgesFrom_imports hd]
  exact congrArg Prod.fst (Option.some.inj ht)

/-- Registrations of one file that take turns come to stages where they have nothing to delete. -/
theorem overlap_of_interleaves {digest' : Digest} (hserves : Serves digest store respond)
    (hd : Function.Injective digest') (hg : g.Indexed digest') (hs : (store s).Holds g)
    {rules : RegistrationRules} {os : List Outline} (hown : ∀ o ∈ os, o.IsOwn)
    (hpath : ∀ o ∈ os, o.path = path) {rs : List Request}
    {xs : List (Except Fault (Option Registration))}
    (hrun : Interleaves respond (os.map fun o ↦ registerFile rules (.ok o)) s rs xs t)
    (hagree : ∀ r ∈ rs, ∀ t ∈ r.hashed digest, digest t = digest' t) :
    ∃ stages h, (store t).Holds h ∧ Overlap digest' path (os.map (·.imports)) stages rs h ∧
      stages.map (·.1) = os.map (·.imports) ∧ ∀ l ∈ stages, l.2 = .deleting [] := by
  -- There is a lane for every registration, which wants the imports of its version.
  let lanes : List (List Import × Program (Option Registration) × Stage) :=
    os.map fun o ↦ (o.imports, registerFile rules (.ok o), .merging o.imports)
  have hprograms : lanes.map (·.2.1) = os.map fun o ↦ registerFile rules (.ok o) := List.map_map
  have hversions : lanes.map (·.1) = os.map (·.imports) := List.map_map
  have hstart : lanes.map (fun l ↦ (l.1, l.2.2))
      = (os.map (·.imports)).map fun wanted ↦ (wanted, .merging wanted) := by
    rw [List.map_map, List.map_map]
    rfl
  have hfollows : ∀ l ∈ lanes, l.2.1.Follows (IsReply digest') (Step path l.1)
      (fun _ c ↦ c = .deleting []) l.2.2 := by
    rw [List.forall_mem_map]
    intro o ho
    rw [← hpath o ho]
    exact follows_registerFile hd (hown o ho)
  obtain ⟨stages, h, hh, hover, hstages, hended⟩ := Interleaves.exists_stages (Answers digest')
    (fun s g ↦ (store s).Holds g) (Step path) (Overlap digest' path (os.map (·.imports)))
    (fun ho hx ↦ ⟨_, _, ho.indexed, hx⟩) (fun ho hx hstep ↦ ho.step hd hx hstep) lanes
    (hprograms ▸ hrun) (fun r hr _ _ hs ↦ hserves.answers (hagree r hr) hs) hfollows hs
    (hstart ▸ overlap_start hg _)
  exact ⟨stages, h, hh, hover, hstages.trans hversions, fun l hl ↦ (hended l hl).elim fun _ hc ↦ hc⟩

/-- **The imports after registrations that overlap.** Whatever the order of the requests, the
imports of the file are those of the versions that are not undone, each once. What all versions have
is among them. So they are the imports of one of the versions if and only if no import of this
version is undone and all others are. -/
theorem imports_of_overlap (hserves : Serves digest store respond) (hs : (store s).Holds .empty)
    {history : List Request} (hhistory : ∀ r ∈ history, r.IsIndexing) (rules : RegistrationRules)
    (path : String) {os : List Outline} (hne : os ≠ []) (hown : ∀ o ∈ os, o.IsOwn)
    (hpath : ∀ o ∈ os, o.path = path) {rs : List Request}
    {xs : List (Except Fault (Option Registration))}
    (hrun : Interleaves respond (os.map fun o ↦ registerFile rules (.ok o))
      (respond.after history s) rs xs t)
    (hdigest : Collisionless digest (nodeText fileLabel (fileKey (.text path)) ::
      (history ++ rs).flatMap (Request.hashed digest))) :
    ∃ g, (store t).Holds g ∧
      (store t).findRelationships digest importsFrom fileLabel (fileKey (.text path)) []
        = .ok ((g.importsOf path).map edgeOf) ∧ (g.importsOf path).Nodup ∧
      (∀ i, i ∈ g.importsOf path ↔ (∃ o ∈ os, i ∈ o.imports) ∧ ¬ IsUndone path i rs) ∧
      (∀ i, (∀ o ∈ os, i ∈ o.imports) → i ∈ g.importsOf path) ∧
      ∀ o ∈ os, (∀ i, i ∈ g.importsOf path ↔ i ∈ o.imports) ↔
        (∀ i ∈ o.imports, ¬ IsUndone path i rs) ∧
          ∀ o' ∈ os, ∀ i ∈ o'.imports, i ∉ o.imports → IsUndone path i rs := by
  obtain ⟨digest', hd, hagree⟩ := exists_injective_eqOn hdigest
  have hagree' : ∀ r, r ∈ history ∨ r ∈ rs → ∀ t ∈ r.hashed digest, digest t = digest' t :=
    fun r hr t ht ↦ hagree t (List.mem_cons_of_mem _
      (List.mem_flatMap.mpr ⟨r, List.mem_append.mpr hr, ht⟩))
  obtain ⟨g₀, hg₀, hindexed⟩ := hserves.exists_indexed_after hd hs hhistory
    fun r hr ↦ hagree' r (Or.inl hr)
  obtain ⟨stages, g, hg, hover, hstages, hended⟩ := overlap_of_interleaves hserves hd hindexed hg₀
    hown hpath hrun fun r hr ↦ hagree' r (Or.inr hr)
  have hmem : ∀ i, i ∈ g.importsOf path ↔ (∃ o ∈ os, i ∈ o.imports) ∧ ¬ IsUndone path i rs := by
    intro i
    rw [hover.mem_importsOf (by simpa using hne) hstages hended]
    simp only [List.mem_map, exists_exists_and_eq_and]
  refine ⟨g, hg, findRelationships_imports hover.indexed hd hg (hagree _ List.mem_cons_self),
    hover.indexed.nodup_importsOf hd path, hmem, fun i hi ↦ ?_,
    fun o ho ↦ ⟨fun heq ↦ ⟨fun i hi ↦ ?_, fun o' ho' i hi hnot ↦ ?_⟩, ?_⟩⟩
  · -- Nobody deletes what all versions have.
    obtain ⟨o, ho⟩ := List.exists_mem_of_ne_nil os hne
    refine (hmem i).mpr ⟨⟨o, ho, hi o ho⟩, fun hundone ↦ ?_⟩
    obtain ⟨wanted, hwanted, hnot⟩ := hover.deleted i hundone.mem
    obtain ⟨o', ho', rfl⟩ := List.mem_map.mp hwanted
    exact hnot (hi o' ho')
  · exact ((hmem i).mp ((heq i).mpr hi)).2
  · by_contra hundone
    exact hnot ((heq i).mp ((hmem i).mpr ⟨⟨o', ho', hi⟩, hundone⟩))
  · rintro ⟨hkept, hundone⟩ i
    rw [hmem]
    constructor
    · rintro ⟨⟨o', ho', hi⟩, hnot⟩
      by_contra hio
      exact hnot (hundone o' ho' i hi hio)
    · exact fun hi ↦ ⟨⟨o, ho, hi⟩, hkept i hi⟩

end Runs

/-! ## A file that loses an update -/

def olderVersion : Outline := { path := "/a.ts", imports := [⟨"b", "/b.ts"⟩], functions := [] }

def newerVersion : Outline := { path := "/a.ts", imports := [⟨"c", "/c.ts"⟩], functions := [] }

/-- The registration of the older version is begun, then that of the newer version is begun and
finished, then the first one is finished. -/
theorem imports_of_overlap_lateOlder : ∃ rs xs t,
    Interleaves Rehearsal.serve
      ([newerVersion, olderVersion].map fun o ↦ registerFile ⟨false, true, true⟩ (.ok o))
      (Rehearsal.new {} .empty) rs xs t ∧
    ∃ g, (Rehearsal.store t).Holds g ∧
      (Rehearsal.store t).findRelationships Text.Digest.ofText importsFrom fileLabel
          (fileKey (.text "/a.ts")) [] = .ok ((g.importsOf "/a.ts").map edgeOf) ∧
      (g.importsOf "/a.ts").Nodup ∧
      ∀ i, i ∈ g.importsOf "/a.ts" ↔
        (∃ o ∈ [newerVersion, olderVersion], i ∈ o.imports) ∧ ¬ IsUndone "/a.ts" i rs := by
  have hrun : Interleaves Rehearsal.serve
      ([newerVersion, olderVersion].map fun o ↦ registerFile ⟨false, true, true⟩ (.ok o))
      (Rehearsal.new {} .empty) _ _ _ :=
    Interleaves.turn [_] [] (interleaves_runAll Rehearsal.serve _ _)
  have hhistory : ∀ r ∈ ([] : List Request), r.IsIndexing := fun r hr ↦ absurd hr List.not_mem_nil
  obtain ⟨g, hg, hlisted, hnodup, hmem, -⟩ := imports_of_overlap Rehearsal.serves
    Store.holds_empty hhistory ⟨false, true, true⟩ "/a.ts" (List.cons_ne_nil _ _) (by decide)
    (by decide) hrun (by decide +kernel)
  exact ⟨_, _, _, hrun, g, hg, hlisted, hnodup, hmem⟩

/-- What is left of a program that has made its first request, and the state after that. -/
def begun {α σ : Type} (respond : Responder σ) : Program α → σ → Program α × σ
  | .ask r k, s => (k (respond r s).1, (respond r s).2)
  | p, s => (p, s)

/-- **The newer version can be lost**: that its imports are left, if its registration is begun after
that of the older version, is not so. -/
theorem not_forall_imports_eq_newer : ¬ ∀ (rules : RegistrationRules) (older newer : Outline),
    older.IsOwn → newer.IsOwn → newer.path = older.path → ∀ rs xs t,
    Interleaves Rehearsal.serve
      [registerFile rules (.ok newer),
        (begun Rehearsal.serve (registerFile rules (.ok older)) (Rehearsal.new {} .empty)).1]
      (begun Rehearsal.serve (registerFile rules (.ok older)) (Rehearsal.new {} .empty)).2 rs xs t →
    ∀ g, t.store.Holds g → ∀ i, i ∈ g.importsOf newer.path ↔ i ∈ newer.imports := by
  intro h
  have hlost : ((runAll Rehearsal.serve
      [registerFile ⟨false, true, true⟩ (.ok newerVersion),
        (begun Rehearsal.serve (registerFile ⟨false, true, true⟩ (.ok olderVersion))
          (Rehearsal.new {} .empty)).1]
      (begun Rehearsal.serve (registerFile ⟨false, true, true⟩ (.ok olderVersion))
        (Rehearsal.new {} .empty)).2).2.store.look
          (fun g ↦ .ok (g.importsOf "/a.ts" == olderVersion.imports)) fun _ ↦ .ok false).toOption
      = some true := by
    decide +kernel
  obtain ⟨g, hg, hleft⟩ := Store.exists_holds_of_look hlost
  have hlast := h ⟨false, true, true⟩ olderVersion newerVersion (by decide) (by decide) rfl _ _ _
    (interleaves_runAll Rehearsal.serve _ _) g hg ⟨"b", "/b.ts"⟩
  have hstays : (⟨"b", "/b.ts"⟩ : Import) ∈ g.importsOf newerVersion.path := by
    rw [newerVersion, beq_iff_eq.mp (Option.some.inj hleft)]
    decide
  exact absurd (hlast.mp hstays) (by decide)

end CodeAtlas.Indexing
