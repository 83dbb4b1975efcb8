import CodeAtlas.Proofs.Enrichment.Runs
import CodeAtlas.Proofs.Indexing.Interleaving
import CodeAtlas.Proofs.Program.Mishaps

/-!
# Files that fail

The files of a directory are registered at the same time, and some of them fail: a file cannot be
parsed, or its registration ends with a fault, at whatever request, and what it has written so far is
left in the graph. The other files do not notice. Registering a file is at home at the path of the
file, and whatever goes wrong it makes no other requests (`asks_program`). So the graph that belongs
to a file with nothing wrong is the one of registering it alone, whether the files that fail are there
or not: the file gets the same counts, and the same edges leave its nodes.
-/

namespace CodeAtlas.Indexing

open CodeAtlas.Graph Program
open Syntax (Outline)

/-! ## Directories -/

/-- A file of a directory, with what came of reading it and what goes wrong when it is registered. -/
structure ListedFile where
  path : String
  outline : Except Fault Outline
  mishaps : Mishaps

namespace ListedFile

def program (rules : RegistrationRules) (l : ListedFile) : Program (Option Registration) :=
  (registerListed rules l.path l.outline).withMishaps l.mishaps 0

/-- Nothing is wrong with the file. -/
structure IsSound (l : ListedFile) : Prop where
  parsed : ∃ o, l.outline = .ok o
  noMishaps : l.mishaps = Mishaps.none

/-- What was read at the path is about the path. -/
def IsOwn (l : ListedFile) : Prop := ∀ o, l.outline = .ok o → o.path = l.path ∧ o.IsOwn

/-- A file that is read at the path of its outline, with nothing wrong. -/
def ofOutline (o : Outline) : ListedFile := ⟨o.path, .ok o, Mishaps.none⟩

theorem isSound_ofOutline (o : Outline) : (ofOutline o).IsSound := ⟨⟨o, rfl⟩, rfl⟩

theorem isOwn_ofOutline {o : Outline} (ho : o.IsOwn) : (ofOutline o).IsOwn := by
  intro o' ho'
  obtain rfl := Except.ok.inj ho'
  exact ⟨rfl, ho⟩

end ListedFile

section Directories

variable {σ : Type} {respond : Responder σ} {rules : RegistrationRules}
  {files : List (String × Except Fault Outline)} {s t : σ} {registrations : List Registration}

/-- The files are registered at the same time, with these outcomes, and then the graph is saved. -/
def Gathers (respond : Responder σ) (rules : RegistrationRules) (ls : List ListedFile) (s : σ)
    (rs : List Request) (xs : List (Except Fault (Option Registration))) (t : σ) : Prop :=
  ∃ u, Interleaves respond (ls.map (·.program rules)) s rs xs u ∧
    respond .flushGraph u = (.ok (), t)

/-- What is returned of a directory: the registrations there are, in the order of the files. -/
def returned (xs : List (Except Fault (Option Registration))) : List Registration :=
  xs.filterMap fun x ↦ x.toOption.join

theorem returned_cons (r : Option Registration) (xs : List (Except Fault (Option Registration))) :
    returned (.ok r :: xs) = r.toList ++ returned xs := by
  cases r <;> rfl

theorem run_registerAll (hrun : (registerAll rules files).run respond s = (.ok registrations, t)) :
    ∃ xs, runAll respond (files.map fun f ↦ registerListed rules f.1 f.2) s = (xs, t) ∧
      returned xs = registrations := by
  induction files generalizing s registrations with
  | nil =>
    obtain ⟨hnil, rfl⟩ := Prod.mk.inj hrun
    exact ⟨[], rfl, Except.ok.inj hnil⟩
  | cons f files ih =>
    rw [registerAll, run_bind_eq_ok] at hrun
    obtain ⟨r, u, hfile, hrest⟩ := hrun
    obtain ⟨rest, v, hfiles, hdone⟩ := run_bind_eq_ok.mp hrest
    obtain ⟨hall, rfl⟩ := Prod.mk.inj hdone
    obtain ⟨xs, hxs, rfl⟩ := ih hfiles
    refine ⟨.ok r :: xs, ?_, (returned_cons r xs).trans (Except.ok.inj hall)⟩
    rw [List.map_cons, runAll, hfile]
    dsimp only
    rw [hxs]

/-- **Registering a directory** one file after another is one way to register the files at the same
time. -/
theorem gathers_registerDirectory
    (hrun : (registerDirectory rules files).run respond s = (.ok registrations, t)) :
    ∃ xs, Gathers respond rules (files.map fun f ↦ ⟨f.1, f.2, Mishaps.none⟩) s
        (traceAll respond (files.map fun f ↦ registerListed rules f.1 f.2) s) xs t ∧
      returned xs = registrations := by
  obtain ⟨all, u, hall, hsave⟩ := run_bind_eq_ok.mp hrun
  obtain ⟨saved, v, hflush, hdone⟩ := run_bind_eq_ok.mp hsave
  obtain ⟨hreturned, rfl⟩ := Prod.mk.inj hdone
  obtain ⟨xs, hxs, rfl⟩ := run_registerAll hall
  have hprograms : (files.map fun f ↦ (⟨f.1, f.2, Mishaps.none⟩ : ListedFile)).map
      (·.program rules) = files.map fun f ↦ registerListed rules f.1 f.2 := by
    rw [List.map_map]
    exact List.map_congr_left fun f _ ↦ withMishaps_none _ 0
  have hturns := interleaves_runAll respond (files.map fun f ↦ registerListed rules f.1 f.2) s
  rw [hxs] at hturns
  refine ⟨xs, ⟨u, ?_, (run_request respond .flushGraph u).symm.trans hflush⟩,
    Except.ok.inj hreturned⟩
  rw [hprograms]
  exact hturns

end Directories

/-! ## What files with mishaps ask -/

section Asks

variable {path : String} {rules : RegistrationRules} {P : Request → Prop}
  {R : (r : Request) → Except Fault r.Reply → Prop}

theorem asks_registerFile_error (hnote : ∀ n, P (.note n)) {e : Fault} :
    (registerFile rules (.error e)).Asks P R fun _ ↦ True := by
  cases e with
  | source => exact (asks_request (hnote _)).bind fun _ _ ↦ asks_pure trivial
  | _ => exact asks_fail

theorem asks_registerListed (hnote : ∀ n, P (.note n)) {outline : Except Fault Outline}
    (hfile : (registerFile rules outline).Asks P R fun _ ↦ True) :
    (registerListed rules path outline).Asks P R fun _ ↦ True := by
  refine hfile.attempt.bind fun x _ ↦ ?_
  cases x with
  | ok r => exact asks_pure trivial
  | error e => exact (asks_request (hnote _)).bind fun _ _ ↦ asks_pure trivial

/-- What is done for a request at home is at home. -/
theorem isAtHome_of_mem_parts {r q : Request} (hr : r.IsAtHome path) (hq : q ∈ r.parts) :
    q.IsAtHome path := by
  cases r with
  | mergeRelationship type fromLabel fromKey toLabel toKey attrs =>
    obtain ⟨hfrom, hto, hattrs⟩ := hr
    rw [Request.parts, List.mem_cons, List.mem_pair] at hq
    rcases hq with rfl | rfl | rfl
    · exact ⟨path, hfrom⟩
    · exact hto
    · exact ⟨hfrom, hto, hattrs⟩
  | _ =>
    obtain rfl := List.mem_singleton.mp hq
    exact hr

theorem isTextualReply_error (r : Request) (e : Fault) : r.IsTextualReply (.error e) := by
  cases r with
  | findRelationships => exact fun edges h ↦ nomatch h
  | _ => trivial

/-- **Whatever goes wrong, the requests are at home.** -/
theorem asks_program {l : ListedFile} (hl : l.IsOwn) :
    AsksAtHome l.path (fun _ ↦ True) (l.program rules) := by
  have hfile : AsksAtHome l.path (fun _ ↦ True) (registerFile rules l.outline) := by
    cases houtline : l.outline with
    | error e => exact asks_registerFile_error fun _ ↦ trivial
    | ok o =>
      obtain ⟨hpath, ho⟩ := hl o houtline
      exact hpath ▸ asks_registerFile ho
  exact (asks_registerListed (fun _ ↦ trivial) hfile).withMishaps isTextualReply_error
    (fun _ hr _ hq ↦ isAtHome_of_mem_parts hr hq) _ _

end Asks

/-! ## What becomes of the others -/

/-- What a registration says, but for the functions that were queued. -/
def Registration.summary (r : Registration) : String × ℕ × ℕ × ℕ :=
  (r.path, r.imports, r.functions, r.calls)

namespace ListedFile

/-- This is said of the file when it is registered alone. -/
def IsSummedUp (digest : Digest) (linkLocal : Bool) (g : Graph) (l : ListedFile)
    (summary : String × ℕ × ℕ × ℕ) : Prop :=
  ∃ o, l.outline = .ok o ∧ summary = (l.path, (countsAlone digest linkLocal g o).1,
    o.functions.length, (countsAlone digest linkLocal g o).2)

/-- This is the graph when the file is registered alone. -/
def IsAlone (digest : Digest) (linkLocal : Bool) (g : Graph) (l : ListedFile) (h : Graph) : Prop :=
  ∃ o, l.outline = .ok o ∧ h = registered digest linkLocal o g

variable {digest : Digest} {linkLocal : Bool} {g : Graph}

theorem rightUnique_isSummedUp : Relator.RightUnique (IsSummedUp digest linkLocal g) := by
  rintro l _ _ ⟨o, ho, rfl⟩ ⟨o', ho', rfl⟩
  obtain rfl := Except.ok.inj (ho.symm.trans ho')
  rfl

theorem rightUnique_isAlone : Relator.RightUnique (IsAlone digest linkLocal g) := by
  rintro l _ _ ⟨o, ho, rfl⟩ ⟨o', ho', rfl⟩
  obtain rfl := Except.ok.inj (ho.symm.trans ho')
  rfl

theorem map_path_of_isSummedUp {ls : List ListedFile} {registrations : List Registration}
    (h : List.Forall₂ (fun l r ↦ IsSummedUp digest linkLocal g l r.summary) ls registrations) :
    registrations.map (·.path) = ls.map (·.path) := by
  induction h with
  | nil => rfl
  | cons hr _ ih =>
    obtain ⟨o, -, hsummary⟩ := hr
    rw [List.map_cons, List.map_cons, ih]
    exact congrArg (· :: _) (congrArg (·.1) hsummary)

end ListedFile

open ListedFile

/-- The registrations that are returned are those of the files that do not fail, in order. -/
theorem forall₂_returned {fails : ListedFile → Bool} {R : ListedFile → Registration → Prop}
    {ls : List ListedFile} {xs : List (Except Fault (Option Registration))}
    (hfails : List.Forall₂ (fun l x ↦ fails l = true → x = .ok none) ls xs)
    (hothers : List.Forall₂ (fun l x ↦ fails l = false → ∃ r, x = .ok (some r) ∧ R l r) ls xs) :
    List.Forall₂ R (ls.filter fun l ↦ !fails l) (returned xs) := by
  induction hfails with
  | nil => exact List.Forall₂.nil
  | @cons l x ls xs hx _ ih =>
    cases hothers with
    | cons hx' hothers =>
      cases hl : fails l with
      | true =>
        rw [hx hl, returned_cons, List.filter_cons, hl]
        exact ih hothers
      | false =>
        obtain ⟨r, rfl, hr⟩ := hx' hl
        rw [returned_cons, List.filter_cons, hl]
        exact (ih hothers).cons hr

section Isolation

variable {σ : Type} {digest digest' : Digest} {store : σ → Store} {respond : Responder σ}
  {rules : RegistrationRules} {g : Graph}

theorem ends_program_of_isSound (hg : g.Textual digest) {l : ListedFile} (hown : l.IsOwn)
    (hl : l.IsSound) : (l.program rules).Ends (Answers digest)
      (fun x h ↦ l.IsAlone digest rules.linkLocal g h ∧
        ∃ r, x = .ok (some r) ∧ l.IsSummedUp digest rules.linkLocal g r.summary) g := by
  obtain ⟨⟨o, ho⟩, hmishaps⟩ := hl
  rw [program, hmishaps, withMishaps_none, ho]
  refine ends_bind.mpr (ends_attempt.mpr ((ends_registerFile_report hg).mono ?_))
  rintro x h ⟨⟨n, rfl⟩, rfl⟩
  exact ⟨⟨o, ho, rfl⟩, _, rfl, o, ho, by rw [← (hown o ho).1]; rfl⟩

/-- However the requests of a directory are interleaved and whatever goes wrong with the files that
fail, each of the others ends as if it were alone. -/
theorem shared_listed (hserves : Serves digest store respond) (hd : Function.Injective digest')
    {ls : List ListedFile} (hown : ∀ l ∈ ls, l.IsOwn) (hpaths : (ls.map (·.path)).Nodup)
    (fails : ListedFile → Bool) (hsound : ∀ l ∈ ls, fails l = false → l.IsSound)
    (hg : g.Textual digest') {s t : σ} (hs : (store s).Holds g) {rs : List Request}
    {xs : List (Except Fault (Option Registration))}
    (hrun : Gathers respond rules ls s rs xs t)
    (hagree : ∀ r ∈ rs, ∀ t ∈ r.hashed digest, digest t = digest' t) :
    ∃ h, (store t).Holds h ∧ ∃ ends : List (ListedFile × Graph), ends.map (·.1) = ls ∧
      Shared digest' g (ends.map fun e ↦ (e.1.path, e.2)) h ∧
      (∀ e ∈ ends, fails e.1 = false → e.1.IsAlone digest' rules.linkLocal g e.2) ∧
      List.Forall₂ (fun l x ↦ fails l = false →
        ∃ r, x = .ok (some r) ∧ l.IsSummedUp digest' rules.linkLocal g r.summary) ls xs := by
  obtain ⟨u, hturns, hflush⟩ := hrun
  have hends : ∀ l ∈ ls, (l.program rules).Ends (Answers digest')
      (fun x h ↦ (fails l = false → l.IsAlone digest' rules.linkLocal g h) ∧ (fails l = false →
        ∃ r, x = .ok (some r) ∧ l.IsSummedUp digest' rules.linkLocal g r.summary)) g := by
    intro l hl
    cases hfails : fails l with
    | true => exact ends_of_forall fun _ _ ↦ ⟨nofun, nofun⟩
    | false =>
      exact (ends_program_of_isSound hg (hown l hl) (hsound l hl hfails)).mono
        fun x h hx ↦ ⟨fun _ ↦ hx.1, fun _ ↦ hx.2⟩
  obtain ⟨h, hh, ends, hfst, hshared, hall, -⟩ := hserves.exists_ends_of_interleaves hd
    (·.path) _ _ hg hpaths (fun l hl ↦ asks_program (hown l hl)) hends hturns hagree hs
  obtain ⟨hfinal, hxs⟩ := (List.forall₂_and_left _ _).mp hall
  have hsaved : (store t).Holds h := by
    have hkept := (hserves.aside .flushGraph u rfl).2 h hh
    rwa [hflush] at hkept
  refine ⟨h, hsaved, ends, hfst, hshared, hfinal, ?_⟩
  rw [← hfst, List.forall₂_map_left_iff]
  exact hxs

/-! ## A file that cannot be parsed -/

/-- Only something for the log is said. -/
abbrev SaysOnly {α : Type} (p : Program α) : Prop :=
  p.Asks (fun r ↦ ∃ n, r = .note n) (fun _ _ ↦ True) fun _ ↦ True

/-- What is said for the log changes neither the graph nor the queue. -/
theorem SaysOnly.unchanged {α : Type} {queue : σ → Queue} (hserves : Serves digest store respond)
    (hqueue : HoldsQueue respond queue) {p : Program α} (hp : SaysOnly p) {s : σ}
    (hs : (store s).Holds g) :
    (store (p.run respond s).2).Holds g ∧ queue (p.run respond s).2 = queue s := by
  induction p generalizing s with
  | done a => exact ⟨hs, rfl⟩
  | fail e => exact ⟨hs, rfl⟩
  | ask r k ih =>
    obtain ⟨⟨n, rfl⟩, hk⟩ := hp
    obtain ⟨-, hsame⟩ := hqueue (.note n) s
    obtain ⟨hgraph, hrest⟩ := ih _ (hk _ trivial) ((hserves.aside (.note n) s rfl).2 g hs)
    exact ⟨hgraph, hrest.trans hsame⟩

theorem saysOnly_program {l : ListedFile} {e : Fault} (hl : l.outline = .error e) :
    SaysOnly (l.program rules) := by
  have hlisted : SaysOnly (registerListed rules l.path l.outline) := by
    rw [hl]
    exact asks_registerListed (fun n ↦ ⟨n, rfl⟩) (asks_registerFile_error fun n ↦ ⟨n, rfl⟩)
  refine hlisted.withMishaps (fun _ _ ↦ trivial) ?_ _ _
  rintro _ ⟨n, rfl⟩ q hq
  exact ⟨n, List.mem_singleton.mp hq⟩

/-! ## Isolation -/

/-- The nodes of a file and of the functions in it belong to the path of the file. -/
theorem isIdOf_of_node (hd : Function.Injective digest) (hg : g.Textual digest) {n : Node}
    (hn : n ∈ g.nodes) {path : String} (h : n.isFile path ∨ ∃ name, n.isFunction name path) :
    IsIdOf digest path n.id := by
  rcases h with h | ⟨name, h⟩
  · exact ⟨_, _, isKeyOf_file path, (hg.isFile_iff hd (hg.node?_eq hn)).mp h⟩
  · exact ⟨_, _, isKeyOf_function name path, (hg.isFunction_iff hd (hg.node?_eq hn)).mp h⟩

/-- **One bad file never affects another**: whichever files of a directory fail, and wherever they
stop, what is returned are the registrations of the others, with the counts that there are without the
files that fail, and the same edges leave the nodes of the others. A file without an outline leaves the
graph and the queue as they were. -/
theorem failures_isolated {queue : σ → Queue} (hserves : Serves digest store respond)
    (hqueue : HoldsQueue respond queue) {s : σ} (hs : (store s).Holds .empty)
    {history : List Request} (hhistory : ∀ r ∈ history, r.IsTextual) {ls : List ListedFile}
    (hown : ∀ l ∈ ls, l.IsOwn) (hpaths : (ls.map (·.path)).Nodup) {fails : ListedFile → Bool}
    (hsound : ∀ l ∈ ls, fails l = false → l.IsSound) {rs rs' : List Request}
    {xs xs' : List (Except Fault (Option Registration))} {t t' : σ}
    (hrun : Gathers respond rules ls (respond.after history s) rs xs t)
    (hfails : List.Forall₂ (fun l x ↦ fails l = true → x = .ok none) ls xs)
    (hrun' : Gathers respond rules (ls.filter fun l ↦ !fails l) (respond.after history s) rs' xs' t')
    (hdigest : Collisionless digest ((history ++ rs ++ rs').flatMap (Request.hashed digest))) :
    (returned xs).map (·.path) = (ls.filter fun l ↦ !fails l).map (·.path) ∧
    (returned xs).map (·.summary) = (returned xs').map (·.summary) ∧
    (∃ g h, (store t).Holds g ∧ (store t').Holds h ∧
      ∀ l ∈ ls, fails l = false → ∀ n, n ∈ g.nodes ∨ n ∈ h.nodes →
        (n.isFile l.path ∨ ∃ name, n.isFunction name l.path) →
        g.leaving n.id = h.leaving n.id ∧
          ∀ r ∈ g.leaving n.id, g.node? r.targetId = h.node? r.targetId) ∧
    ∀ l ∈ ls, ∀ e, l.outline = .error e → ∀ u g, (store u).Holds g →
      (store ((l.program rules).run respond u).2).Holds g ∧
        queue ((l.program rules).run respond u).2 = queue u := by
  -- Both courses of events are compared with what each registration does when it is alone.
  obtain ⟨digest', hd, hagree⟩ := exists_injective_eqOn hdigest
  have hagree' : ∀ r, r ∈ history ∨ r ∈ rs ∨ r ∈ rs' → ∀ t ∈ r.hashed digest, digest t = digest' t :=
    fun r hr t ht ↦ hagree t (List.mem_flatMap.mpr ⟨r, by
      rw [List.append_assoc, List.mem_append, List.mem_append]
      exact hr, ht⟩)
  obtain ⟨g₀, hg₀, htextual⟩ := hserves.exists_textual_after hs hhistory
    fun r hr ↦ hagree' r (Or.inl hr)
  obtain ⟨g, hg, ends, hfst, hshared, halone, hxs⟩ := shared_listed hserves hd hown hpaths fails
    hsound htextual hg₀ hrun fun r hr ↦ hagree' r (Or.inr (Or.inl hr))
  have hmem : ∀ l, l ∈ ls.filter (fun l ↦ !fails l) ↔ l ∈ ls ∧ fails l = false := fun l ↦ by
    rw [List.mem_filter, Bool.not_eq_true']
  obtain ⟨h, hh, ends', hfst', hshared', halone', hxs'⟩ := shared_listed hserves hd
    (fun l hl ↦ hown l ((hmem l).mp hl).1) (hpaths.sublist (List.filter_sublist.map _))
    (fun _ ↦ false) (fun l hl _ ↦ hsound l ((hmem l).mp hl).1 ((hmem l).mp hl).2) htextual hg₀ hrun'
    fun r hr ↦ hagree' r (Or.inr (Or.inr hr))
  have hreturned := forall₂_returned hfails hxs
  have hreturned' := forall₂_returned (hxs'.imp fun _ _ _ ↦ nofun) hxs'
  simp only [Bool.not_false, List.filter_true] at hreturned'
  refine ⟨?_, ?_, ⟨g, h, hg, hh, fun l hl hfail n hn hnode ↦ ?_⟩, fun l _ e he u g hu ↦ ?_⟩
  · exact map_path_of_isSummedUp hreturned
  · exact List.right_unique_forall₂' rightUnique_isSummedUp
      (List.forall₂_map_right_iff.mpr hreturned) (List.forall₂_map_right_iff.mpr hreturned')
  · have hid : IsIdOf digest' l.path n.id := hn.elim
      (fun hn ↦ isIdOf_of_node hd hshared.grown.textual hn hnode)
      (fun hn ↦ isIdOf_of_node hd hshared'.grown.textual hn hnode)
    have hlane : l ∈ ends.map (·.1) := hfst ▸ hl
    have hlane' : l ∈ ends'.map (·.1) := hfst' ▸ (hmem l).mpr ⟨hl, hfail⟩
    obtain ⟨k, hk⟩ : ∃ k, (l, k) ∈ ends := by simpa using hlane
    obtain ⟨k', hk'⟩ : ∃ k', (l, k') ∈ ends' := by simpa using hlane'
    obtain rfl : k = k' := rightUnique_isAlone (halone _ hk hfail) (halone' _ hk' rfl)
    exact hshared.leaving_eq hd hshared' (List.mem_map_of_mem hk) (List.mem_map_of_mem hk') hid
  · exact (saysOnly_program he).unchanged hserves hqueue hu

end Isolation

/-! ## Two bad files among others -/

theorem forall₂_failed {fails : ListedFile → Bool} {ls : List ListedFile}
    {xs : List (Except Fault (Option Registration))}
    (h : xs.map (fun x ↦ x.toOption.map Option.isNone) = ls.map fun l ↦ some (fails l)) :
    List.Forall₂ (fun l x ↦ fails l = true → x = .ok none) ls xs := by
  induction ls generalizing xs with
  | nil =>
    obtain rfl := List.map_eq_nil_iff.mp h
    exact List.Forall₂.nil
  | cons l ls ih =>
    obtain ⟨x, xs, rfl, hx, hxs⟩ := List.map_eq_cons_iff.mp h
    refine (ih hxs).cons fun hl ↦ ?_
    dsimp only at hx
    rw [hl] at hx
    rcases x with e | - | r
    · exact nomatch hx
    · rfl
    · exact nomatch hx

/-- One file cannot be parsed. The connection breaks while the import of the other one is merged, when
the two ends of it are there. -/
def badFiles : List ListedFile :=
  [⟨"/bad.ts", .error (.source "/bad.ts" .malformed), Mishaps.none⟩,
    { ofOutline { path := "/c.ts", imports := [⟨"b", "/b.ts"⟩], functions := [] } with
      mishaps := fun i ↦ if i = 1 then some ⟨2, .outside .runtime "connection reset by peer"⟩ else none }]

/-- Is it at the path of a bad file? -/
def isBad (l : ListedFile) : Bool := badFiles.any (·.path == l.path)

/-- The files that call each other are registered as if the bad files were not there. -/
theorem failures_isolated_badFiles : ∃ rs xs t registrations t',
    Gathers Rehearsal.serve ⟨false, true, false⟩ (badFiles ++ callerAndCallee.map ofOutline)
      (Rehearsal.new {} .empty) rs xs t ∧
    (registerDirectory ⟨false, true, false⟩ (callerAndCallee.map fun o ↦ (o.path, .ok o))).run
      Rehearsal.serve (Rehearsal.new {} .empty) = (.ok registrations, t') ∧
    (returned xs).map (·.path) = ["/a.ts", "/b.ts"] ∧
    (returned xs).map (·.summary) = registrations.map (·.summary) ∧
    ∃ g h, (Rehearsal.store t).Holds g ∧ (Rehearsal.store t').Holds h ∧
      ∀ o ∈ callerAndCallee, ∀ n, n ∈ g.nodes ∨ n ∈ h.nodes →
        (n.isFile o.path ∨ ∃ name, n.isFunction name o.path) →
        g.leaving n.id = h.leaving n.id ∧
          ∀ r ∈ g.leaving n.id, g.node? r.targetId = h.node? r.targetId := by
  have hhistory : ∀ r ∈ ([] : List Request), r.IsTextual := fun r hr ↦ absurd hr List.not_mem_nil
  have hown : ∀ l ∈ badFiles ++ callerAndCallee.map ofOutline, l.IsOwn := by
    have hcallers : ∀ o ∈ callerAndCallee, o.IsOwn := by decide
    refine List.forall_mem_append.mpr ⟨List.forall_mem_cons.mpr ⟨nofun,
      List.forall_mem_singleton.mpr (isOwn_ofOutline fun f hf ↦ absurd hf List.not_mem_nil)⟩,
      List.forall_mem_map.mpr fun o ho ↦ isOwn_ofOutline (hcallers o ho)⟩
  have hsound : ∀ l ∈ badFiles ++ callerAndCallee.map ofOutline, isBad l = false → l.IsSound := by
    refine List.forall_mem_append.mpr ⟨fun l hl hgood ↦ ?_,
      List.forall_mem_map.mpr fun o _ _ ↦ isSound_ofOutline o⟩
    have hbad : isBad l = true := List.any_eq_true.mpr ⟨l, hl, beq_self_eq_true l.path⟩
    exact nomatch hbad.symm.trans hgood
  have hrun : Gathers Rehearsal.serve ⟨false, true, false⟩
      (badFiles ++ callerAndCallee.map ofOutline) (Rehearsal.new {} .empty) _ _ _ :=
    ⟨_, interleaves_runAll Rehearsal.serve _ _, rfl⟩
  have hok : ((registerDirectory ⟨false, true, false⟩ (callerAndCallee.map fun o ↦
      (o.path, .ok o))).run Rehearsal.serve (Rehearsal.new {} .empty)).1.isOk = true := by
    decide +kernel
  obtain ⟨x, t', hx⟩ : ∃ x t', (registerDirectory ⟨false, true, false⟩
      (callerAndCallee.map fun o ↦ (o.path, .ok o))).run Rehearsal.serve (Rehearsal.new {} .empty)
        = (x, t') := ⟨_, _, Prod.mk.eta.symm⟩
  rw [hx] at hok
  cases x with
  | error e => exact nomatch hok
  | ok registrations =>
    obtain ⟨xs', hrun', rfl⟩ := gathers_registerDirectory hx
    obtain ⟨hpaths, hsummaries, ⟨g, h, hg, hh, hedges⟩, -⟩ := failures_isolated Rehearsal.serves
      Enrichment.holdsQueue_serve Store.holds_empty hhistory hown (by decide) hsound hrun
      (forall₂_failed (by decide +kernel)) hrun' (by decide +kernel)
    refine ⟨_, _, _, _, t', hrun, hx, hpaths, hsummaries, g, h, hg, hh, fun o ho ↦ ?_⟩
    have hgood : ∀ o ∈ callerAndCallee, isBad (ofOutline o) = false := by decide
    exact hedges _ (List.mem_append_right _ (List.mem_map_of_mem ho)) (hgood o ho)

end CodeAtlas.Indexing
