import CodeAtlas.Proofs.Enrichment.Draining
import CodeAtlas.Proofs.Enrichment.Runs
import CodeAtlas.Proofs.Indexing.Enqueueing
import Mathlib.Data.List.Find

/-!
# Records follow edits

A file that has changed is registered again, and its functions are queued although they may have
records. Meanwhile the queue is drained now and then. At each change a function may be waiting, it
may have a record, or it may be new; in the first case the item that waits is replaced, and in the
other two an item enters.

So for each function that the last version of its file declares, the following stays true (`Fresh`):
either the item of its last declaration waits, or nothing waits for it and its record is that of its
last declaration. After a drain only the second is left. The ids of items and records are those of the
nodes, and a node stays where it is.
-/

namespace CodeAtlas

/-- An offer is not refused because the queue is full. -/
def Exchange.hasRoom : Exchange → Bool
  | ⟨.offer .., .ok .full⟩ => false
  | _ => true

namespace Indexing

open CodeAtlas.Graph Program
open Enrichment (IsRecordOf Drained)
open Syntax (Function FunctionKey Outline)

/-! ## Changes and drains -/

/-- A file is registered as it lies in a tree at that time, or the queue is drained. -/
inductive Work
  | change (files : FileTree) (path : String)
  | drain

namespace Work

/-- What a change or a drain comes to; what goes wrong with a change stops nothing else. -/
def program (rules : IndexRules) (limit : Int) : Work → Program (List (Option Registration))
  | change files path => do
    match ← (registerPath (rules.reparsing true) files path).attempt with
    | .ok r => pure [r]
    | .error _ => pure [none]
  | drain => do
    let _ ← Enrichment.drain limit
    pure []

/-- What reading the file came to, for a change. -/
def versions (rules : IndexRules) : Work → List (Except Fault Outline)
  | change files path => [outlineAt rules.source files path]
  | drain => []

end Work

/-- Changes and drains one after the other, with the outcomes of the changes. -/
def perform (rules : IndexRules) (limit : Int) : List Work → Program (List (Option Registration))
  | [] => pure []
  | w :: works => do
    let outcomes ← w.program rules limit
    let rest ← perform rules limit works
    pure (outcomes ++ rest)

/-- After changes and drains the queue is drained once more. -/
def performAndDrain (rules : IndexRules) (limit : Int) (works : List Work) :
    Program (List (Option Registration)) := do
  let outcomes ← perform rules limit works
  let _ ← Enrichment.drain limit
  pure outcomes

/-- The versions that are read in the course of the changes. -/
def versionsRead (rules : IndexRules) (works : List Work) : List (Except Fault Outline) :=
  works.flatMap (Work.versions rules)

/-! ## What is offered for a version -/

variable {digest : Digest} {permits : Exchange → Bool} {a b c : Surroundings}
  {versions : List (Except Fault Outline)} {functions : List Function} {path name : String}
  {o : Outline} {f : Function}

theorem wanting_true (records : List FunctionRecord) (functions : List Function) :
    wanting digest true records functions = functions.map (itemFor digest) := by
  have hall : functions.filter (lacksRecord digest true records) = functions :=
    List.filter_eq_self.mpr fun _ _ ↦ rfl
  rw [wanting, hall]

/-- The item that is offered last for a function of a file is that of its last declaration. -/
theorem lastOffered_items (ho : o.IsOwn) (hf : lastDeclaration o.functions name = some f) :
    Queue.lastOffered (o.functions.map (itemFor digest)) (name, o.path) = some (itemFor digest f) := by
  rw [Queue.lastOffered, ← List.map_reverse, List.find?_map, Option.map_eq_some_iff]
  refine ⟨f, ?_, rfl⟩
  rw [← hf, lastDeclaration]
  apply List.find?_congr
  intro f' hf'
  rw [Bool.eq_iff_iff, Function.comp_apply, beq_iff_eq, beq_iff_eq]
  exact Prod.mk_inj.trans (and_iff_left (ho f' (List.mem_reverse.mp hf')))

/-- Nothing is offered for the functions of other files. -/
theorem lastOffered_items_of_ne (ho : o.IsOwn) {k : FunctionKey} (hk : o.path ≠ k.2) :
    Queue.lastOffered (o.functions.map (itemFor digest)) k = none := by
  rw [Queue.lastOffered_eq_none, List.map_map, List.mem_map]
  rintro ⟨f, hf, rfl⟩
  exact hk (ho f hf).symm

/-- If there is room, what waits is what was offered last, or what was not offered again. -/
theorem mem_pending_of_enqueued (hpermits : ∀ e, permits e = true → e.hasRoom = true)
    (hb : Enqueued digest permits true functions a b) {i : Item} : i ∈ b.queue.pending ↔
      Queue.lastOffered (functions.map (itemFor digest)) i.key = some i ∨
      (Queue.lastOffered (functions.map (itemFor digest)) i.key = none ∧ i ∈ a.queue.pending) := by
  have hpermitted := hb.permitted
  rw [wanting_true] at hpermitted
  rw [hb.queue, wanting_true]
  apply Queue.mem_pending_offerAll
  refine hpermitted.mono ?_
  rintro i v hv rfl
  exact Bool.false_ne_true (hpermits _ hv)

/-- What is under an id after a drain was stored in the drain, or before. -/
theorem find?_recordsIn_of_stored {records : List FunctionRecord}
    (h : storedIn b.log = storedIn a.log ++ records) (id : String) :
    (recordsIn b.log).find? (·.id == id)
      = (records.reverse.find? (·.id == id)).or ((recordsIn a.log).find? (·.id == id)) := by
  rw [recordsIn, find?_holdings, h, List.reverse_append, List.find?_append, recordsIn, find?_holdings]

/-! ## The invariant -/

/-- For each function of the last version of its file, the item of its last declaration waits, or
nothing waits for it and its record is up to date. -/
structure Fresh (digest : Digest) (versions : List (Except Fault Outline)) (a : Surroundings) : Prop
    where
  textual : a.graph.Textual digest
  nodup : a.queue.keys.Nodup
  items : ∀ i ∈ a.queue.pending, i.functionId = functionId digest i.name i.path
  own : ∀ o, .ok o ∈ versions → o.IsOwn
  node : ∀ path o, lastVersion versions path = some o → ∀ name f,
    lastDeclaration o.functions name = some f →
      ∃ n, a.graph.node? (functionId digest name path) = some n
  current : ∀ path o, lastVersion versions path = some o → ∀ name f,
    lastDeclaration o.functions name = some f → itemFor digest f ∈ a.queue.pending ∨
      (name, path) ∉ a.queue.keys ∧ ∃ r, IsRecordOf (itemFor digest f) r ∧
        (recordsIn a.log).find? (·.id == functionId digest name path) = some r

theorem of_lastVersion (h : lastVersion versions path = some o) :
    .ok o ∈ versions ∧ o.path = path := by
  have hmem := List.mem_reverse.mp (List.mem_of_find?_eq_some h)
  obtain ⟨version, hversion, ho⟩ := List.mem_filterMap.mp hmem
  refine ⟨?_, beq_iff_eq.mp (List.find?_some (p := fun o : Outline ↦ o.path == path) h)⟩
  cases version with
  | ok o' => exact Option.some.inj ho ▸ hversion
  | error e => exact absurd ho (by simp [Except.toOption])

namespace Fresh

theorem key_itemFor (h : Fresh digest versions a) (ho : lastVersion versions path = some o)
    (hf : lastDeclaration o.functions name = some f) : (itemFor digest f).key = (name, path) := by
  obtain ⟨hmem, hpath⟩ := of_lastVersion ho
  obtain ⟨hfmem, hname⟩ := mem_of_lastDeclaration hf
  exact Prod.ext hname ((h.own o hmem f hfmem).trans hpath)

/-- A file that could not be read changes nothing. -/
theorem error (h : Fresh digest versions a) {e : Fault}
    (hb : Enqueued digest permits true (declaredIn (.error e)) a b) :
    Fresh digest (versions ++ [.error e]) b := by
  have hqueue : b.queue = a.queue := hb.queue
  have hrecords : recordsIn b.log = recordsIn a.log := recordsIn_eq_of_deeds hb.deeds
  constructor
  case textual => exact hb.textual
  case nodup => exact hqueue ▸ h.nodup
  case items => exact hqueue ▸ h.items
  case own =>
    intro o ho
    exact h.own o ((List.mem_append.mp ho).resolve_right (by simp))
  case node =>
    rw [lastVersion_append_error]
    intro path o ho name f hf
    obtain ⟨n, hn⟩ := h.node path o ho name f hf
    exact ⟨n, hb.node _ n hn⟩
  case current =>
    rw [lastVersion_append_error, hqueue, hrecords]
    exact h.current

/-- A version that could be read takes the place of the one before it. -/
theorem ok (h : Fresh digest versions a) (hpermits : ∀ e, permits e = true → e.hasRoom = true)
    (ho : o.IsOwn) (hb : Enqueued digest permits true (declaredIn (.ok o)) a b) :
    Fresh digest (versions ++ [.ok o]) b := by
  have hqueue : b.queue = a.queue.offerAll true (o.functions.map (itemFor digest)) := by
    rw [hb.queue, wanting_true]
    rfl
  have hrecords : recordsIn b.log = recordsIn a.log := recordsIn_eq_of_deeds hb.deeds
  have hpending : ∀ i, i ∈ b.queue.pending ↔
      Queue.lastOffered (o.functions.map (itemFor digest)) i.key = some i ∨
      (Queue.lastOffered (o.functions.map (itemFor digest)) i.key = none ∧ i ∈ a.queue.pending) :=
    fun i ↦ mem_pending_of_enqueued hpermits hb
  constructor
  case textual => exact hb.textual
  case nodup => exact hqueue ▸ Queue.nodup_keys_offerAll h.nodup true _
  case items =>
    intro i hi
    rcases (hpending i).mp hi with hlast | ⟨-, hold⟩
    · obtain ⟨f, -, rfl⟩ := List.mem_map.mp (Queue.mem_of_lastOffered hlast)
      rfl
    · exact h.items i hold
  case own =>
    intro p hp
    rcases List.mem_append.mp hp with hold | hnew
    · exact h.own p hold
    · exact Except.ok.inj (List.mem_singleton.mp hnew) ▸ ho
  case node =>
    intro path p hp name f hf
    rw [lastVersion_append_ok] at hp
    by_cases hpath : o.path = path
    · rw [if_pos hpath] at hp
      obtain rfl := Option.some.inj hp
      obtain ⟨hmem, hname⟩ := mem_of_lastDeclaration hf
      obtain ⟨n, hn⟩ := hb.declared f hmem
      rw [hname, ho f hmem, hpath] at hn
      exact ⟨n, hn⟩
    · rw [if_neg hpath] at hp
      obtain ⟨n, hn⟩ := h.node path p hp name f hf
      exact ⟨n, hb.node _ n hn⟩
  case current =>
    intro path p hp name f hf
    rw [lastVersion_append_ok] at hp
    by_cases hpath : o.path = path
    · rw [if_pos hpath] at hp
      obtain rfl := Option.some.inj hp
      have hlast : Queue.lastOffered (o.functions.map (itemFor digest)) (name, o.path)
          = some (itemFor digest f) := lastOffered_items ho hf
      have hkey : (itemFor digest f).key = (name, o.path) := Queue.key_of_lastOffered hlast
      exact Or.inl ((hpending _).mpr (Or.inl (hkey ▸ hlast)))
    · rw [if_neg hpath] at hp
      -- Another file is none of its business.
      have hsame : ∀ i, i.key.2 = path → (i ∈ b.queue.pending ↔ i ∈ a.queue.pending) := by
        intro i hi
        rw [hpending, lastOffered_items_of_ne ho (hi ▸ hpath)]
        simp
      have hf' : f.path = path := congrArg Prod.snd (h.key_itemFor hp hf)
      rw [hsame (itemFor digest f) hf', hrecords]
      refine (h.current path p hp name f hf).imp_right fun hdone ↦ ⟨fun hk ↦ hdone.1 ?_, hdone.2⟩
      obtain ⟨i, hi, hkey⟩ := List.mem_map.mp hk
      exact hkey ▸ List.mem_map_of_mem ((hsame i (by rw [hkey])).mp hi)

/-- A drain brings the records of what waited up to date. -/
theorem drain (hd : Function.Injective digest) {limit : Int} (h : Fresh digest versions a)
    (hb : Drained limit a b) : Fresh digest versions b := by
  obtain ⟨records, hrecords, hstored⟩ := hb.stored
  have hkeys : b.queue.keys = [] := by
    rw [Queue.keys, hb.pending, List.map_nil]
  have hnew : ∀ name path r, records.reverse.find? (·.id == functionId digest name path) = some r →
      ∃ i ∈ a.queue.pending, i.key = (name, path) ∧ IsRecordOf i r := by
    intro name path r hr
    obtain ⟨i, hi, hrecord⟩ :=
      Enrichment.exists_item_of_mem hrecords (List.mem_reverse.mp (List.mem_of_find?_eq_some hr))
    have hid : r.id = functionId digest name path := beq_iff_eq.mp (List.find?_some
      (p := fun r : FunctionRecord ↦ r.id == functionId digest name path) hr)
    refine ⟨i, hi, ?_, hrecord⟩
    obtain ⟨summary, vector, -, rfl⟩ := hrecord
    exact Prod.mk_inj.mpr ((functionId_inj hd).mp ((h.items i hi).symm.trans hid))
  constructor
  case textual => exact hb.graph ▸ h.textual
  case nodup =>
    rw [hkeys]
    exact List.nodup_nil
  case items =>
    rw [hb.pending]
    exact fun i hi ↦ absurd hi List.not_mem_nil
  case own => exact h.own
  case node => exact hb.graph ▸ h.node
  case current =>
    intro path o ho name f hf
    refine Or.inr ⟨hkeys ▸ List.not_mem_nil, ?_⟩
    rw [find?_recordsIn_of_stored hstored]
    have hkey : (itemFor digest f).key = (name, path) := h.key_itemFor ho hf
    obtain ⟨hname, hpath⟩ := Prod.mk_inj.mp hkey
    rcases h.current path o ho name f hf with hwaits | ⟨hidle, r, hrecord, hr⟩
    · have hsome : (records.reverse.find? (·.id == functionId digest name path)).isSome = true := by
        have hid : functionId digest name path ∈ records.map (·.id) := by
          rw [Enrichment.ids_of_forall₂ hrecords]
          exact List.mem_map.mpr ⟨_, hwaits, congrArg₂ (functionId digest) hname hpath⟩
        obtain ⟨r, hr, hid⟩ := List.mem_map.mp hid
        exact List.find?_isSome.mpr ⟨r, List.mem_reverse.mpr hr, beq_iff_eq.mpr hid⟩
      obtain ⟨r, hr⟩ := Option.isSome_iff_exists.mp hsome
      obtain ⟨i, hi, hikey, hrecord⟩ := hnew name path r hr
      obtain rfl : i = itemFor digest f :=
        List.inj_on_of_nodup_map h.nodup hi hwaits (hikey.trans hkey.symm)
      exact ⟨r, hrecord, by rw [hr, Option.some_or]⟩
    · have hnone : records.reverse.find? (·.id == functionId digest name path) = none := by
        rw [Option.eq_none_iff_forall_ne_some]
        intro r' hr'
        obtain ⟨i, hi, hikey, -⟩ := hnew name path r' hr'
        exact hidle (hikey ▸ List.mem_map_of_mem hi)
      exact ⟨r, hrecord, by rw [hnone, Option.none_or, hr]⟩

end Fresh

/-! ## Runs -/

variable {rules : IndexRules} {limit : Int}

/-- A change or a drain keeps the invariant, and a change succeeds if the file can be read. -/
theorem Fresh.ends_work (hd : Function.Injective digest)
    (hpermits : ∀ e, permits e = true → e.succeeds = true ∧ e.hasRoom = true)
    (henriches : rules.registration.enriches = true) (w : Work) (h : Fresh digest versions a) :
    (w.program rules limit).Ends (Surroundings.Answers digest permits)
      (fun x b ↦ (∃ outcomes, x = .ok outcomes ∧
          List.Forall₂ (fun version outcome ↦ outcome.isSome = version.isOk) (w.versions rules)
            outcomes) ∧
        Fresh digest (versions ++ w.versions rules) b) a := by
  cases w with
  | change files path =>
    have hreparsing : (rules.reparsing true).registration.enriches = true := henriches
    refine ends_bind.mpr (ends_attempt.mpr ((ends_registerFile_surroundings hreparsing h.textual
      (outlineAt rules.source files path)).mono ?_))
    rintro x b ⟨hx, hb⟩
    rw [Work.versions]
    cases hversion : outlineAt rules.source files path with
    | ok o =>
      rw [hversion] at hx hb
      obtain ⟨r, rfl⟩ := hx.mpr ⟨o, rfl⟩
      have ho : o.IsOwn := Visit.isOwn_version (v := ⟨rules, files, path⟩) hversion
      exact ⟨⟨[some r], rfl, .cons rfl .nil⟩, h.ok (fun e he ↦ (hpermits e he).2) ho hb⟩
    | error e =>
      rw [hversion] at hx hb
      have hfresh := h.error hb
      rcases x with e' | - | r
      · exact ⟨⟨[none], rfl, .cons rfl .nil⟩, hfresh⟩
      · exact ⟨⟨[none], rfl, .cons rfl .nil⟩, hfresh⟩
      · obtain ⟨o, ho⟩ := hx.mp ⟨r, rfl⟩
        exact absurd ho (by simp)
  | drain =>
    refine ends_bind.mpr ((Enrichment.ends_drain fun e he ↦ (hpermits e he).1).mono ?_)
    rintro x b ⟨rfl, hb⟩
    rw [Work.versions, List.append_nil]
    exact ⟨⟨[], rfl, .nil⟩, h.drain hd hb⟩

theorem Fresh.ends_perform (hd : Function.Injective digest)
    (hpermits : ∀ e, permits e = true → e.succeeds = true ∧ e.hasRoom = true)
    (henriches : rules.registration.enriches = true) (works : List Work)
    (h : Fresh digest versions a) :
    (perform rules limit works).Ends (Surroundings.Answers digest permits)
      (fun x b ↦ (∃ outcomes, x = .ok outcomes ∧
          List.Forall₂ (fun version outcome ↦ outcome.isSome = version.isOk)
            (versionsRead rules works) outcomes) ∧
        Fresh digest (versions ++ versionsRead rules works) b) a := by
  induction works generalizing versions a with
  | nil =>
    refine ⟨⟨[], rfl, .nil⟩, ?_⟩
    rw [versionsRead, List.flatMap_nil, List.append_nil]
    exact h
  | cons w works ih =>
    refine ends_bind.mpr ((h.ends_work hd hpermits henriches w).mono ?_)
    rintro x b ⟨⟨outcomes, rfl, houtcomes⟩, hb⟩
    refine ends_bind.mpr ((ih hb).mono ?_)
    rintro y c ⟨⟨rest, rfl, hrest⟩, hc⟩
    rw [versionsRead, List.flatMap_cons, ← List.append_assoc]
    exact ⟨⟨_, rfl, List.rel_append houtcomes hrest⟩, hc⟩

theorem Fresh.ends_performAndDrain (hd : Function.Injective digest)
    (hpermits : ∀ e, permits e = true → e.succeeds = true ∧ e.hasRoom = true)
    (henriches : rules.registration.enriches = true) (works : List Work)
    (h : Fresh digest versions a) :
    (performAndDrain rules limit works).Ends (Surroundings.Answers digest permits)
      (fun x b ↦ (∃ outcomes, x = .ok outcomes ∧
          List.Forall₂ (fun version outcome ↦ outcome.isSome = version.isOk)
            (versionsRead rules works) outcomes) ∧
        Fresh digest (versions ++ versionsRead rules works) b ∧ b.queue.pending = []) a := by
  refine ends_bind.mpr ((h.ends_perform hd hpermits henriches works).mono ?_)
  rintro x b ⟨⟨outcomes, rfl, houtcomes⟩, hb⟩
  refine ends_bind.mpr ((Enrichment.ends_drain fun e he ↦ (hpermits e he).1).mono ?_)
  rintro y c ⟨rfl, hc⟩
  exact ⟨⟨outcomes, rfl, houtcomes⟩, hb.drain hd hc, hc.pending⟩

theorem fresh_empty {q : Queue} (hq : q.pending = []) : Fresh digest [] ⟨.empty, q, []⟩ where
  textual := consistent_empty
  nodup := by
    rw [Queue.keys, hq]
    exact List.nodup_nil
  items := by
    rw [hq]
    exact fun i hi ↦ absurd hi List.not_mem_nil
  own := fun o ho ↦ absurd ho List.not_mem_nil
  node := fun path o ho ↦ absurd ho (by simp [lastVersion])
  current := fun path o ho ↦ absurd ho (by simp [lastVersion])

section Runs

variable {σ : Type} {respond : Responder σ} {store : σ → Store} {queue : σ → Queue}
  {recordsOf : σ → List FunctionRecord} {s : σ}

/-- **Records follow edits.** Whatever is registered, because it has changed, and drained in between,
from an empty graph, queue and record store, if no service fails and no offer finds the queue full: a
change succeeds if the file can be read, and after a last drain each function that is declared in the
last version of a file has a record under the id of its node, with the text and the lines of its last
declaration there. -/
theorem records_follow_changes (hserves : Serves digest store respond)
    (hqueue : HoldsQueue respond queue) (hrecords : HoldsRecords respond recordsOf)
    (hs : (store s).Holds .empty) {capacity : Int} (hq : queue s = .empty capacity)
    (hr : recordsOf s = []) (henriches : rules.registration.enriches = true) (limit : Int)
    (works : List Work)
    (hsucceeds : ∀ e ∈ (performAndDrain rules limit works).exchanges respond s,
      (e.succeeds && e.hasRoom) = true)
    (hdigest : Collisionless digest (((performAndDrain rules limit works).trace respond
      s).flatMap (Request.hashed digest))) :
    ∃ outcomes t g,
      (performAndDrain rules limit works).run respond s = (.ok outcomes, t) ∧
      (store t).Holds g ∧
      List.Forall₂ (fun version outcome ↦ outcome.isSome = version.isOk) (versionsRead rules works)
        outcomes ∧
      ∀ path o, lastVersion (versionsRead rules works) path = some o → ∀ name f,
        lastDeclaration o.functions name = some f → ∃ n ∈ g.nodes, n.isFunction name path ∧
          ∃ r, (recordsOf t).find? (·.id == n.id) = some r ∧ r.code = some f.text ∧
            r.startLine = f.startLine ∧ r.endLine = f.endLine := by
  obtain ⟨digest', hd, hagree⟩ := exists_injective_eqOn hdigest
  have hempty : (queue s).pending = [] := by
    rw [hq]
    rfl
  have hpermits : ∀ e : Exchange, (e.succeeds && e.hasRoom) = true →
      e.succeeds = true ∧ e.hasRoom = true := fun e he ↦ (Bool.and_eq_true _ _).mp he
  obtain ⟨g, hg, hstored, ⟨outcomes, hrun, houtcomes⟩, hfresh, hdrained⟩ :=
    ((fresh_empty hempty).ends_performAndDrain hd hpermits henriches works).run_surroundings hserves
      hqueue hrecords hs rfl hr (fun r hr t ht ↦ hagree t (List.mem_flatMap.mpr ⟨r, hr, ht⟩))
      hsucceeds
  rw [List.nil_append] at hfresh hstored
  refine ⟨outcomes, _, g, Prod.ext hrun rfl, hg, houtcomes, fun path o ho name f hf ↦ ?_⟩
  obtain ⟨n, hn⟩ := hfresh.node path o ho name f hf
  obtain ⟨hmem, hid⟩ := mem_of_node? hn
  refine ⟨n, hmem, (hfresh.textual.isFunction_iff hd hn).mpr rfl, ?_⟩
  rcases hfresh.current path o ho name f hf with hwaits | ⟨-, r, ⟨summary, vector, -, rfl⟩, hfound⟩
  · rw [hdrained] at hwaits
    exact absurd hwaits List.not_mem_nil
  · rw [hstored, hid]
    exact ⟨_, hfound, rfl, rfl, rfl⟩

end Runs

/-! ## A function that moves -/

/-- A function is registered and drained; then it has another text on another line. -/
def moving : List Work :=
  [.change (loneVisit "function f() \x7b\x7d\n").files "/a.ts", .drain,
    .change (loneVisit "\nfunction f() \x7b g(); \x7d\n").files "/a.ts"]

def movedOutline : Outline :=
  ⟨"/a.ts", [], [⟨"f", "/a.ts", "function f() \x7b g(); \x7d", 2, 2, ["g"]⟩]⟩

/-- Embeddings are scripted. -/
def scripted : Rehearsal := { Rehearsal.new {} .empty with vectors := [.ok [], .ok []] }

theorem registerPath_of_version {text : String} (h : (loneVisit text).version = .ok o) :
    registerPath (queueingRules.reparsing true) (loneVisit text).files "/a.ts"
      = registerFile ⟨false, true, true⟩ (.ok o) := congrArg (registerFile _) h

/-- The record is that of the function as it is now. -/
theorem records_follow_changes_moving :
    ∃ outcomes t g, (performAndDrain queueingRules 100 moving).run Rehearsal.serve scripted
        = (.ok outcomes, t) ∧ t.store.Holds g ∧
      ∃ n ∈ g.nodes, n.isFunction "f" "/a.ts" ∧
        ∃ r, t.records.find? (·.id == n.id) = some r ∧
          r.code = some "function f() \x7b g(); \x7d" ∧ r.startLine = 2 ∧ r.endLine = 2 := by
  have hbefore : (loneVisit "function f() \x7b\x7d\n").version
      = .ok ⟨"/a.ts", [], [⟨"f", "/a.ts", "function f() \x7b\x7d", 1, 1, []⟩]⟩ :=
    version_loneVisit (by decide +kernel)
  have hafter : (loneVisit "\nfunction f() \x7b g(); \x7d\n").version = .ok movedOutline :=
    version_loneVisit (by decide +kernel)
  have hsucceeds : ∀ e ∈ (performAndDrain queueingRules 100 moving).exchanges Rehearsal.serve
      scripted, (e.succeeds && e.hasRoom) = true := by
    simp only [performAndDrain, moving, perform, Work.program, registerPath_of_version hbefore,
      registerPath_of_version hafter]
    decide +kernel
  have hdigest : Collisionless Text.Digest.ofText
      (((performAndDrain queueingRules 100 moving).trace Rehearsal.serve scripted).flatMap
        (Request.hashed Text.Digest.ofText)) := by
    simp only [performAndDrain, moving, perform, Work.program, registerPath_of_version hbefore,
      registerPath_of_version hafter]
    decide +kernel
  obtain ⟨outcomes, t, g, hrun, hg, -, hfresh⟩ := records_follow_changes Rehearsal.serves
    Enrichment.holdsQueue_serve holdsRecords_serve Store.holds_empty rfl rfl rfl 100 moving
    hsucceeds hdigest
  have hlast : lastVersion (versionsRead queueingRules moving) "/a.ts" = some movedOutline := by
    have hread : versionsRead queueingRules moving
        = [(loneVisit "function f() \x7b\x7d\n").version] ++
          [(loneVisit "\nfunction f() \x7b g(); \x7d\n").version] := rfl
    rw [hread, hafter, lastVersion_append_ok]
    exact if_pos rfl
  exact ⟨outcomes, t, g, hrun, hg, hfresh "/a.ts" movedOutline hlast "f" _ rfl⟩

end Indexing

end CodeAtlas
