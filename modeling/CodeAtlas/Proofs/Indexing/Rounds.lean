import CodeAtlas.Proofs.Enrichment.Draining
import CodeAtlas.Proofs.Enrichment.Runs
import CodeAtlas.Proofs.Indexing.Enqueueing
import Mathlib.Data.List.Find

/-!
# Rounds of registering and draining

A queue that is too small for a codebase delays functions. A function that found no room is offered
again when the codebase is registered again, and one that has a record is not. So rounds, each of
which registers a tree and drains the queue, work through the functions one queue after the other.

The invariant (`Advanced`) is about the items that have been handed out until then:

* their functions are different ones, and each item is that of a last declaration;
* the records are theirs, in the same order, and so are the prompts;
* there are as many as there are functions in all, or as there was room for in the rounds.

A round keeps it because the functions without a record are those whose item was not handed out.
-/

namespace CodeAtlas.Indexing

open CodeAtlas.Graph Program
open Enrichment (IsRecordOf Drained summaryPrompt)
open Syntax (Function FunctionKey Outline)

/-! ## The functions of a tree -/

/-- What reading the sources below a directory comes to, each with the path it was found under. -/
def versionsBelow (rules : IndexRules) (files : FileTree) (root : String) :
    List (String × Except Fault Outline) :=
  let findings := (files.scan rules.source.known rules.maxFileSize root).toOption.getD []
  (Scan.sources findings).map fun path ↦ (path, outlineAt rules.source files path)

/-- The functions that are declared below a directory, each once. -/
def keysBelow (rules : IndexRules) (files : FileTree) (root : String) : Finset FunctionKey :=
  ((declaredAmong (versionsBelow rules files root)).map Function.key).toFinset

/-- The declaration of a function that comes last. -/
def lastDeclared (functions : List Function) (k : FunctionKey) : Option Function :=
  functions.reverse.find? (·.key == k)

/-- Among the functions of one file, the name is enough. -/
theorem lastDeclared_of_isOwn {o : Outline} (ho : o.IsOwn) {k : FunctionKey} {f : Function}
    (h : lastDeclared o.functions k = some f) :
    o.path = k.2 ∧ lastDeclaration o.functions k.1 = some f := by
  have hkey : f.key = k :=
    beq_iff_eq.mp (List.find?_some (p := fun f : Function ↦ f.key == k) h)
  have hpath : o.path = k.2 := by
    rw [← hkey, ← ho f (List.mem_reverse.mp (List.mem_of_find?_eq_some h))]
    rfl
  refine ⟨hpath, ?_⟩
  rw [← h, lastDeclaration, lastDeclared]
  apply List.find?_congr
  intro f' hf'
  rw [Bool.eq_iff_iff, beq_iff_eq, beq_iff_eq, Function.key, Prod.ext_iff,
    ho f' (List.mem_reverse.mp hf')]
  exact (and_iff_left hpath).symm

/-- The last declaration of a function is that of its file. -/
theorem exists_lastDeclaration {versions : List (String × Except Fault Outline)}
    (hown : ∀ path o, (path, .ok o) ∈ versions → o.IsOwn) {k : FunctionKey} {f : Function}
    (h : lastDeclared (declaredAmong versions) k = some f) :
    ∃ path o, (path, .ok o) ∈ versions ∧ o.path = k.2 ∧
      lastDeclaration o.functions k.1 = some f := by
  induction versions with
  | nil => exact absurd h (by simp [lastDeclared, declaredAmong])
  | cons file versions ih =>
    obtain ⟨path, version⟩ := file
    rw [lastDeclared, declaredAmong, List.flatMap_cons, List.reverse_append, List.find?_append,
      Option.or_eq_some_iff] at h
    rcases h with hlater | ⟨-, hhere⟩
    · obtain ⟨path', o, hmem, hfound⟩ :=
        ih (fun path o ho ↦ hown path o (List.mem_cons_of_mem _ ho)) hlater
      exact ⟨path', o, List.mem_cons_of_mem _ hmem, hfound⟩
    · cases version with
      | ok o =>
        exact ⟨path, o, List.mem_cons_self,
          lastDeclared_of_isOwn (hown path o List.mem_cons_self) hhere⟩
      | error e => exact absurd hhere (by simp [declaredIn])

theorem isOwn_of_mem_versionsBelow {rules : IndexRules} {files : FileTree} {root path : String}
    {o : Outline} (h : (path, .ok o) ∈ versionsBelow rules files root) : o.IsOwn := by
  obtain ⟨path', -, heq⟩ := List.mem_map.mp h
  exact Visit.isOwn_version (v := ⟨rules, files, path'⟩) (Prod.mk.inj heq).2

variable {digest : Digest} {permits : Exchange → Bool} {a b c : Surroundings}
  {functions : List Function}

/-! ## What wants a record -/

/-- Whether a function wants a record is up to its name and path. -/
theorem lacksRecord_congr {reparse : Bool} {records : List FunctionRecord} {f f' : Function}
    (h : f.key = f'.key) :
    lacksRecord digest reparse records f = lacksRecord digest reparse records f' := by
  obtain ⟨hname, hpath⟩ := Prod.mk.inj h
  rw [lacksRecord, lacksRecord, hname, hpath]

/-- What is offered last for a function is its last declaration. -/
theorem lastOffered_wanting {reparse : Bool} {records : List FunctionRecord} {k : FunctionKey}
    {i : Item} (h : Queue.lastOffered (wanting digest reparse records functions) k = some i) :
    ∃ f, lastDeclared functions k = some f ∧ i = itemFor digest f := by
  rw [Queue.lastOffered, wanting, ← List.map_reverse, List.find?_map, ← List.filter_reverse,
    List.find?_filter, Option.map_eq_some_iff] at h
  obtain ⟨f, hf, rfl⟩ := h
  refine ⟨f, ?_, rfl⟩
  have hfound := List.find?_some hf
  rw [decide_eq_true_iff] at hfound
  obtain ⟨hlacks, hkey⟩ := hfound
  rw [← hf, lastDeclared]
  apply List.find?_congr
  intro f' _
  rw [Bool.eq_iff_iff, decide_eq_true_iff, beq_iff_eq]
  refine ⟨fun hkey' ↦ ⟨?_, beq_iff_eq.mpr hkey'⟩, fun h ↦ beq_iff_eq.mp h.2⟩
  rw [lacksRecord_congr (hkey'.trans (beq_iff_eq.mp hkey).symm)]
  exact hlacks

/-! ## One round -/

variable {limit : Int} {m j : ℕ}

/-- How far the functions have been worked through after rounds with a queue for `m` of them. -/
structure Advanced (digest : Digest) (limit : Int) (m : ℕ) (functions : List Function) (j : ℕ)
    (a : Surroundings) : Prop where
  textual : a.graph.Textual digest
  pending : a.queue.pending = []
  capacity : a.queue.capacity = m
  processed : ∀ k ∈ a.queue.processed, k ∈ (handedOut a.log).map Item.key
  latest : ∀ i ∈ handedOut a.log, ∃ f, lastDeclared functions i.key = some f ∧ i = itemFor digest f
  nodup : ((handedOut a.log).map Item.key).Nodup
  stored : List.Forall₂ IsRecordOf (handedOut a.log) (storedIn a.log)
  prompts : prompts a.log = (handedOut a.log).map (summaryPrompt limit)
  length : (handedOut a.log).length = min (functions.map Function.key).toFinset.card (j * m)
  node : ∀ i ∈ handedOut a.log, ∃ n, a.graph.node? i.functionId = some n

theorem mem_of_lastDeclared {k : FunctionKey} {f : Function}
    (h : lastDeclared functions k = some f) : f ∈ functions ∧ f.key = k :=
  ⟨List.mem_reverse.mp (List.mem_of_find?_eq_some h),
    beq_iff_eq.mp (List.find?_some (p := fun f : Function ↦ f.key == k) h)⟩

namespace Advanced

/-- The functions that want a record are those that have not been handed out. -/
theorem lacksRecord_iff (hd : Function.Injective digest) (h : Advanced digest limit m functions j a)
    {f : Function} : lacksRecord digest false (recordsIn a.log) f = true ↔
      f.key ∉ (handedOut a.log).map Item.key := by
  rw [lacksRecord, Bool.false_or, Bool.not_eq_true', ← Bool.not_eq_true, recordsIn, any_holdings,
    Enrichment.ids_of_forall₂ h.stored, not_iff_not, List.mem_map, List.mem_map]
  refine exists_congr fun i ↦ and_congr_right fun hi ↦ ?_
  obtain ⟨f', -, rfl⟩ := h.latest i hi
  exact (functionId_inj hd).trans Prod.mk_inj.symm

/-- What wants a record is declared and has not been handed out. -/
theorem keys_wanting (hd : Function.Injective digest) (h : Advanced digest limit m functions j a) :
    ((wanting digest false (recordsIn a.log) functions).map Item.key).toFinset
      = (functions.map Function.key).toFinset \ ((handedOut a.log).map Item.key).toFinset := by
  ext k
  rw [Finset.mem_sdiff, List.mem_toFinset, List.mem_toFinset, List.mem_toFinset, wanting,
    List.map_map, List.mem_map]
  constructor
  · rintro ⟨f, hf, rfl⟩
    obtain ⟨hmem, hlacks⟩ := List.mem_filter.mp hf
    exact ⟨List.mem_map_of_mem hmem, (h.lacksRecord_iff hd).mp hlacks⟩
  · rintro ⟨hk, hnew⟩
    obtain ⟨f, hf, rfl⟩ := List.mem_map.mp hk
    exact ⟨f, List.mem_filter.mpr ⟨hf, (h.lacksRecord_iff hd).mpr hnew⟩, rfl⟩

/-- There are as many as are left. -/
theorem card_wanting (hd : Function.Injective digest) (h : Advanced digest limit m functions j a) :
    ((wanting digest false (recordsIn a.log) functions).map Item.key).toFinset.card
      = (functions.map Function.key).toFinset.card - (handedOut a.log).length := by
  have hsub : ((handedOut a.log).map Item.key).toFinset ⊆ (functions.map Function.key).toFinset := by
    intro k hk
    obtain ⟨i, hi, rfl⟩ := List.mem_map.mp (List.mem_toFinset.mp hk)
    obtain ⟨f, hf, -⟩ := h.latest i hi
    obtain ⟨hmem, hkey⟩ := mem_of_lastDeclared hf
    rw [List.mem_toFinset, ← hkey]
    exact List.mem_map_of_mem hmem
  rw [h.keys_wanting hd, Finset.card_sdiff_of_subset hsub, List.toFinset_card_of_nodup h.nodup,
    List.length_map]

/-- **A round** hands out what wants a record, as far as there is room. -/
theorem round (hd : Function.Injective digest) (h : Advanced digest limit m functions j a)
    (hb : Enqueued digest permits false functions a b) (hc : Drained limit b c) :
    Advanced digest limit m functions (j + 1) c := by
  have hnew : ∀ i ∈ wanting digest false (recordsIn a.log) functions,
      i.key ∉ (handedOut a.log).map Item.key := by
    intro i hi
    obtain ⟨f, hf, rfl⟩ := List.mem_map.mp hi
    exact (h.lacksRecord_iff hd).mp (List.mem_filter.mp hf).2
  have hfilled : a.queue.Filled (wanting digest false (recordsIn a.log) functions) b.queue := by
    rw [hb.queue]
    exact Queue.filled_offerAll h.pending (h.capacity ▸ Int.natCast_nonneg m)
      fun i hi hdone ↦ hnew i hi (h.processed _ hdone)
  have hlength := hfilled.length_eq h.capacity
  rw [h.card_wanting hd, h.length] at hlength
  have hdeeds := hb.deeds
  obtain ⟨hhanded, hsaid⟩ := Prod.mk.inj hdeeds
  obtain ⟨hprompts, hstored⟩ := Prod.mk.inj hsaid
  have hwanted : ∀ i ∈ b.queue.pending, i ∈ wanting digest false (recordsIn a.log) functions :=
    fun i hi ↦ Queue.mem_of_lastOffered (hfilled.latest i hi)
  have hall : handedOut c.log = handedOut a.log ++ b.queue.pending := by
    rw [hc.handedOut, hhanded]
  constructor
  case textual => exact hc.graph ▸ hb.textual
  case pending => exact hc.pending
  case capacity => exact hc.capacity.trans (hfilled.capacity.trans h.capacity)
  case processed =>
    intro k hk
    rw [hall, List.map_append, List.mem_append]
    rcases (hc.mem_processed k).mp hk with hk | hk
    · exact Or.inl (h.processed k ((hfilled.mem_processed k).mp hk))
    · exact Or.inr hk
  case latest =>
    rw [hall, List.forall_mem_append]
    exact ⟨h.latest, fun i hi ↦ lastOffered_wanting (hfilled.latest i hi)⟩
  case nodup =>
    rw [hall, List.map_append]
    refine List.nodup_append'.mpr ⟨h.nodup, hfilled.nodup, fun k hold hk ↦ ?_⟩
    obtain ⟨i, hi, rfl⟩ := List.mem_map.mp hk
    exact hnew i (hwanted i hi) hold
  case stored =>
    obtain ⟨records, hrecords, hadded⟩ := hc.stored
    rw [hall, hadded, hstored]
    exact List.rel_append h.stored hrecords
  case prompts => rw [hc.prompts, hprompts, h.prompts, hall, List.map_append]
  case length =>
    rw [hall, List.length_append, h.length, hlength, Nat.succ_mul]
    omega
  case node =>
    rw [hall, List.forall_mem_append, hc.graph]
    constructor
    · intro i hi
      obtain ⟨n, hn⟩ := h.node i hi
      exact ⟨n, hb.node _ n hn⟩
    · intro i hi
      obtain ⟨f, hf, rfl⟩ := lastOffered_wanting (hfilled.latest i hi)
      exact hb.declared f (mem_of_lastDeclared hf).1

end Advanced

/-! ## All rounds -/

/-- Registers what is below a directory and drains the queue, again and again. -/
def rounds (rules : IndexRules) (files : FileTree) (root : String) (limit : Int) : ℕ → Program Unit
  | 0 => pure ()
  | k + 1 => do
    let _ ← registerTree rules files root
    let _ ← Enrichment.drain limit
    rounds rules files root limit k

variable {rules : IndexRules} {files : FileTree} {root : String} {findings : List Finding}

theorem ends_registerTree_surroundings (hpermits : ∀ e, permits e = true → e.succeeds = true)
    (henriches : rules.registration.enriches = true) (hroot : '\x00' ∉ root.toList)
    (hscan : files.scan rules.source.known rules.maxFileSize root = .ok findings)
    (hconcurrency : 0 < rules.concurrency) (ha : a.graph.Textual digest) :
    (registerTree rules files root).Ends (Surroundings.Answers digest permits)
      (fun x b ↦ (∃ rs, x = .ok rs) ∧ Enqueued digest permits rules.registration.reparse
        (declaredAmong (versionsBelow rules files root)) a b) a := by
  have hplain : root.toList.contains '\x00' = false := by
    simpa using hroot
  rw [registerTree, hplain, if_neg Bool.false_ne_true, findSources, hscan]
  refine ends_bind.mpr (ends_bind.mpr (ends_ofExcept.mpr (ends_bind.mpr
    (ends_reportLarge_surroundings.mono ?_))))
  rintro x b ⟨rfl, hgraph, hsame⟩
  have hstart : Enqueued digest permits rules.registration.reparse [] a b :=
    .of_aside ha hgraph hsame
  dsimp only
  rw [ends_pure]
  dsimp only
  rw [if_neg (by omega)]
  refine ends_bind.mpr ((ends_registerAll_surroundings henriches hstart.textual _).mono ?_)
  rintro x c ⟨⟨rs, rfl⟩, hregistered⟩
  refine ends_bind.mpr (ends_request.mpr ?_)
  intro y d hd
  have hsaved : y.isOk = true := hpermits _ hd.permitted
  cases y with
  | error e => exact absurd hsaved Bool.false_ne_true
  | ok _ =>
    have hflush : Enqueued digest permits rules.registration.reparse [] c d := by
      refine .of_aside hregistered.textual hd.graph.2 ⟨hd.queue, ?_⟩
      rw [hd.log]
      exact deeds_append rfl _ _
    have hall := (hstart.trans hregistered).trans hflush
    rw [List.nil_append, List.append_nil] at hall
    refine ⟨⟨rs, rfl⟩, ?_⟩
    rw [versionsBelow, hscan]
    exact hall

/-- What rounds come to. -/
theorem ends_rounds (hd : Function.Injective digest)
    (hpermits : ∀ e, permits e = true → e.succeeds = true)
    (henriches : rules.registration.enriches = true) (hreparse : rules.registration.reparse = false)
    (hroot : '\x00' ∉ root.toList)
    (hscan : files.scan rules.source.known rules.maxFileSize root = .ok findings)
    (hconcurrency : 0 < rules.concurrency) (k : ℕ)
    (h : Advanced digest limit m (declaredAmong (versionsBelow rules files root)) j a) :
    (rounds rules files root limit k).Ends (Surroundings.Answers digest permits)
      (fun x b ↦ x = .ok () ∧ Advanced digest limit m
        (declaredAmong (versionsBelow rules files root)) (j + k) b) a := by
  induction k generalizing j a with
  | zero => exact ⟨rfl, h⟩
  | succ k ih =>
    refine ends_bind.mpr ((ends_registerTree_surroundings hpermits henriches hroot hscan
      hconcurrency h.textual).mono ?_)
    rintro x b ⟨⟨rs, rfl⟩, hb⟩
    rw [hreparse] at hb
    refine ends_bind.mpr ((Enrichment.ends_drain hpermits).mono ?_)
    rintro y c ⟨rfl, hc⟩
    have hround := h.round hd hb hc
    refine (ih hround).mono ?_
    rintro z d ⟨rfl, hend⟩
    rw [Nat.add_assoc, Nat.add_comm 1 k] at hend
    exact ⟨rfl, hend⟩

section Runs

variable {σ : Type} {respond : Responder σ} {store : σ → Store} {queue : σ → Queue}
  {recordsOf : σ → List FunctionRecord} {s : σ}

/-- **A full queue delays functions, and neither starves nor repeats one.** Whatever the codebase,
rounds of registering it and draining a queue for `m` functions, from an empty graph, queue and
record store and with all services succeeding, leave one record more for each place in the queue
until there is one for each function that is declared. Each record is under the id of the function's
own node and has the code of the last declaration in its file, and each function was handed out for
a summary at most once. -/
theorem records_after_rounds (hserves : Serves digest store respond)
    (hqueue : HoldsQueue respond queue) (hrecords : HoldsRecords respond recordsOf)
    (hs : (store s).Holds .empty) (hq : queue s = .empty m) (hr : recordsOf s = [])
    (henriches : rules.registration.enriches = true) (hreparse : rules.registration.reparse = false)
    (hroot : '\x00' ∉ root.toList)
    (hscan : files.scan rules.source.known rules.maxFileSize root = .ok findings)
    (hconcurrency : 0 < rules.concurrency) (limit : Int) (k : ℕ)
    (hsucceeds : ∀ e ∈ (rounds rules files root limit k).exchanges respond s, e.succeeds = true)
    (hdigest : Collisionless digest
      (((rounds rules files root limit k).trace respond s).flatMap (Request.hashed digest))) :
    ∃ t g, (rounds rules files root limit k).run respond s = (.ok (), t) ∧ (store t).Holds g ∧
      (recordsOf t).length = min (keysBelow rules files root).card (k * m) ∧
      ((recordsOf t).map (·.id)).Nodup ∧
      (∀ r ∈ recordsOf t, ∃ path o f, (path, .ok o) ∈ versionsBelow rules files root ∧
        o.path = r.path ∧ lastDeclaration o.functions r.name = some f ∧ r.code = some f.text ∧
        ∃ n, g.node? r.id = some n ∧ n.isFunction r.name r.path) ∧
      ((handedOut ((rounds rules files root limit k).exchanges respond s)).map Item.key).Nodup ∧
      prompts ((rounds rules files root limit k).exchanges respond s)
        = (handedOut ((rounds rules files root limit k).exchanges respond s)).map
          (summaryPrompt limit) := by
  obtain ⟨digest', hd, hagree⟩ := exists_injective_eqOn hdigest
  have hstart : Advanced digest' limit m (declaredAmong (versionsBelow rules files root)) 0
      ⟨.empty, queue s, []⟩ := by
    refine ⟨consistent_empty, by rw [hq]; rfl, by rw [hq]; rfl, ?_, ?_, List.nodup_nil, .nil, rfl,
      ?_, ?_⟩
    · rw [hq]
      exact fun k hk ↦ absurd hk List.not_mem_nil
    · exact fun i hi ↦ absurd hi List.not_mem_nil
    · rw [Nat.zero_mul, Nat.min_zero]
      rfl
    · exact fun i hi ↦ absurd hi List.not_mem_nil
  obtain ⟨g, hg, hstored, hrun, hend⟩ := (ends_rounds hd (fun _ he ↦ he) henriches hreparse hroot
    hscan hconcurrency k hstart).run_surroundings hserves hqueue hrecords hs rfl hr
    (fun r hr t ht ↦ hagree t (List.mem_flatMap.mpr ⟨r, hr, ht⟩)) hsucceeds
  rw [List.nil_append] at hstored hend
  rw [Nat.zero_add] at hend
  -- The ids are those of different functions.
  have hids : ((storedIn ((rounds rules files root limit k).exchanges respond s)).map (·.id)).Nodup := by
    rw [Enrichment.ids_of_forall₂ hend.stored]
    refine List.Nodup.map_on ?_ hend.nodup.of_map
    intro i hi i' hi' heq
    obtain ⟨f, -, rfl⟩ := hend.latest i hi
    obtain ⟨f', -, rfl⟩ := hend.latest i' hi'
    obtain ⟨hname, hpath⟩ := (functionId_inj hd).mp heq
    exact List.inj_on_of_nodup_map hend.nodup hi hi' (Prod.ext hname hpath)
  rw [recordsIn, holdings_of_nodup hids] at hstored
  refine ⟨_, g, Prod.ext hrun rfl, hg, ?_, hstored ▸ hids, ?_, hend.nodup, hend.prompts⟩
  · rw [hstored, ← hend.stored.length_eq]
    exact hend.length
  · rw [hstored]
    intro r hr
    obtain ⟨i, hi, summary, vector, -, rfl⟩ := Enrichment.exists_item_of_mem hend.stored hr
    obtain ⟨n, hn⟩ := hend.node i hi
    obtain ⟨f, hf, rfl⟩ := hend.latest i hi
    obtain ⟨path, o, hmem, hpath, hlast⟩ :=
      exists_lastDeclaration (fun _ _ h ↦ isOwn_of_mem_versionsBelow h) hf
    exact ⟨path, o, f, hmem, hpath, hlast, rfl, n, hn, (hend.textual.isFunction_iff hd hn).mpr rfl⟩

end Runs

/-! ## Two functions and room for one -/

/-- The file of a lone visit, where it is alone in its tree. -/
def twoFunctions : FileTree := (loneVisit "function f() \x7b\x7d\nfunction g() \x7b\x7d\n").files

def twoFunctionsOutline : Outline where
  path := "/a.ts"
  imports := []
  functions := [⟨"f", "/a.ts", "function f() \x7b\x7d", 1, 1, []⟩,
    ⟨"g", "/a.ts", "function g() \x7b\x7d", 2, 2, []⟩]

/-- Embeddings are scripted. -/
def roomForOne : Rehearsal :=
  { Rehearsal.new {} .empty with queue := .empty 1, vectors := [.ok [], .ok []] }

theorem scan_twoFunctions : twoFunctions.scan queueingRules.source.known queueingRules.maxFileSize "/"
    = .ok [.source "/a.ts"] := by
  have hfiles : twoFunctions.linkCount = 0 := rfl
  have hplace : FileTree.plainPlace "/" = [] := by decide +kernel
  have hroot : twoFunctions.realPath "/" = "/" := by
    rw [FileTree.realPath_of_linkless hfiles]
    dsimp only
    rw [hplace]
    rfl
  have hignore : twoFunctions.ignoreRules? "/" = .ok none := by
    have hpath : FileTree.plainPlace (Path.join "/" ".gitignore") = [".gitignore"] := by
      decide +kernel
    rw [FileTree.ignoreRules?, FileTree.read, if_neg (by decide +kernel),
      FileTree.placeOf_of_linkless hfiles, hpath]
    rfl
  have hvisit : Scan.visit ⟨[".ts"], 1048576, FileTree.ignoredBy none⟩ twoFunctions "/" ""
      twoFunctions = [.source "/a.ts"] := by
    decide +kernel
  rw [FileTree.scan, hroot, hignore]
  refine congrArg Except.ok ?_
  rw [FileTree.scanBy, hroot, FileTree.placeOf_of_linkless hfiles, hplace]
  exact hvisit

theorem versionsBelow_twoFunctions :
    versionsBelow queueingRules twoFunctions "/" = [("/a.ts", .ok twoFunctionsOutline)] := by
  have hversion : (loneVisit "function f() \x7b\x7d\nfunction g() \x7b\x7d\n").version
      = .ok twoFunctionsOutline := version_loneVisit (by decide +kernel)
  rw [versionsBelow, scan_twoFunctions]
  exact congrArg (fun v ↦ [("/a.ts", v)]) hversion

theorem rounds_twoFunctions : rounds queueingRules twoFunctions "/" 100 2 = (do
    let _ ← registerDirectory queueingRules.registration [("/a.ts", .ok twoFunctionsOutline)]
    let _ ← Enrichment.drain 100
    let _ ← registerDirectory queueingRules.registration [("/a.ts", .ok twoFunctionsOutline)]
    let _ ← Enrichment.drain 100
    pure ()) := by
  have hregister : registerTree queueingRules twoFunctions "/"
      = registerDirectory queueingRules.registration [("/a.ts", .ok twoFunctionsOutline)] := by
    rw [← versionsBelow_twoFunctions, versionsBelow, registerTree, if_neg (by decide +kernel),
      findSources, scan_twoFunctions]
    rfl
  rw [rounds, rounds, rounds, hregister]

/-- Two rounds are needed, and two are enough. -/
theorem records_after_rounds_twoFunctions :
    ∃ t g, (rounds queueingRules twoFunctions "/" 100 2).run Rehearsal.serve roomForOne = (.ok (), t) ∧
      t.store.Holds g ∧ t.records.length = 2 ∧ (t.records.map (·.id)).Nodup ∧
      ∀ r ∈ t.records, r.path = "/a.ts" ∧
        ∃ f, lastDeclaration twoFunctionsOutline.functions r.name = some f ∧ r.code = some f.text ∧
          ∃ n, g.node? r.id = some n ∧ n.isFunction r.name r.path := by
  have hcard : (keysBelow queueingRules twoFunctions "/").card = 2 := by
    rw [keysBelow, versionsBelow_twoFunctions]
    decide
  obtain ⟨t, g, hrun, hg, hlength, hids, hall, -, -⟩ := records_after_rounds Rehearsal.serves
    Enrichment.holdsQueue_serve holdsRecords_serve (s := roomForOne) Store.holds_empty rfl rfl rfl rfl
    (by decide) scan_twoFunctions (by decide) 100 2
    (by
      rw [rounds_twoFunctions]
      decide +kernel)
    (by
      rw [rounds_twoFunctions]
      decide +kernel)
  rw [hcard] at hlength
  refine ⟨t, g, hrun, hg, hlength, hids, fun r hr ↦ ?_⟩
  obtain ⟨path, o, f, hmem, hpath, hlast, hcode, hnode⟩ := hall r hr
  rw [versionsBelow_twoFunctions, List.mem_singleton] at hmem
  obtain rfl : o = twoFunctionsOutline := Except.ok.inj (Prod.mk.inj hmem).2
  exact ⟨hpath.symm, f, hlast, hcode, hnode⟩

end CodeAtlas.Indexing
