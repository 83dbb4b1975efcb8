import CodeAtlas.Cypher.Serve
import CodeAtlas.Proofs.Cypher.Names
import CodeAtlas.Proofs.Program.Exchanges
import CodeAtlas.Proofs.Query.CallContext
import CodeAtlas.Rehearsal.Database

/-!
# Failures of the database

Whatever a database does, a write is one transaction or two, a read is one, and what is no failure of
the database goes through (`WriteCall.exists_takes`, `ReadCall.exists_takes`). So if the database
fails only as databases do, all that a write can end in is a failed write. This is what the writer of
the graph looks out for, and its merges and deletions always come to a result.

That a database fails only in this way may depend on its state: a script can hold other failures. So
there is an invariant of its states, which every session and statement keeps.
-/

namespace CodeAtlas

/-- Is it one merge or one deletion? -/
def Indexing.WriterCall.IsSingle : WriterCall → Prop
  | syncImports .. => False
  | _ => True

namespace Cypher

open Graph Indexing Program

variable {σ α β : Type}

/-! ## Steps that fail in known ways -/

/-- From the states of the invariant the step leads to such states, and it fails only as it may. -/
def FailsOnly (inv : σ → Prop) (may : Fault → Prop) (x : Effect σ α) : Prop :=
  ∀ s, inv s → inv (x s).2 ∧ ∀ e, (x s).1 = .error e → may e

/-- The driver keeps the invariant and fails only as databases do. -/
structure Driver.FailsAsDatabase (d : Driver σ) (inv : σ → Prop) : Prop where
  openSession : FailsOnly inv Fault.IsOfDatabase d.openSession
  run : ∀ mode q, FailsOnly inv Fault.IsOfDatabase (d.run mode q)

def IsFailedWrite (e : Fault) : Prop := ∃ m c, e = .graphWrite m c

section FailsOnly

variable {inv : σ → Prop} {may : Fault → Prop} {x : Effect σ α} {f : α → Effect σ β}

theorem FailsOnly.bind (hx : FailsOnly inv may x) (hf : ∀ a, FailsOnly inv may (f a)) :
    FailsOnly inv may (x >>= f) := by
  intro s hs
  obtain ⟨hinv, hmay⟩ := hx s hs
  rcases h : x s with ⟨e | a, t⟩
  · rw [h] at hinv hmay
    rw [Effect.bind_of_error h]
    exact ⟨hinv, fun e' he ↦ hmay e' (congrArg _ (Except.error.inj he))⟩
  · rw [h] at hinv
    rw [Effect.bind_of_ok h]
    exact hf a t hinv

theorem failsOnly_pure (a : α) : FailsOnly inv may (pure a : Effect σ α) :=
  fun _ hs ↦ ⟨hs, fun _ he ↦ nomatch he⟩

theorem FailsOnly.map (hx : FailsOnly inv may x) (g : α → β) : FailsOnly inv may (g <$> x) := by
  rw [← bind_pure_comp]
  exact hx.bind fun a ↦ failsOnly_pure (g a)

end FailsOnly

/-! ## Calls that write -/

theorem Tells.isFailedWrite {x y : Except Fault α} (h : Tells .graphWrite x y)
    (hx : ∀ e, x = .error e → e.IsOfDatabase) {e : Fault} (hy : y = .error e) : IsFailedWrite e := by
  cases h with
  | value a => exact nomatch hy
  | wrapped h m => exact Except.error.inj hy ▸ ⟨m, _, rfl⟩
  | passed h => exact absurd (hx _ rfl) h

namespace Driver.FailsAsDatabase

variable {d : Driver σ} {inv : σ → Prop}

theorem transact (hd : d.FailsAsDatabase inv) (mode : Mode) (q : Statement) :
    FailsOnly inv Fault.IsOfDatabase (d.transact mode q) :=
  hd.openSession.bind fun _ ↦ hd.run mode q

theorem write (hd : d.FailsAsDatabase inv) (q : Statement) :
    FailsOnly inv IsFailedWrite (d.write q) := by
  have htransact : ∀ s, inv s → inv (d.transact .write q s).2 ∧
      ∀ e, (d.transact .write q s).1.map Table.first? = .error e → e.IsOfDatabase := by
    intro s hs
    have h := (hd.transact .write q).map Table.first? s hs
    rwa [Effect.map_eq] at h
  intro s hs
  have hfirst := htransact s hs
  rcases hx : d.transact .write q s with ⟨x, t⟩
  rw [hx] at hfirst
  by_cases hviolation : IsViolation x
  · have hsecond := htransact t hfirst.1
    rw [write_of_violation hx hviolation]
    exact ⟨hsecond.1, fun e ↦ (tells_repeatedFault _).isFailedWrite hsecond.2⟩
  · rw [write_of_not_violation hx hviolation]
    exact ⟨hfirst.1, fun e ↦ (tells_databaseFault _ _).isFailedWrite hfirst.2⟩

/-- A call with accepted names can only end in a failed write. -/
theorem writeCall (hd : d.FailsAsDatabase inv) (c : WriteCall)
    (hnames : ∀ name ∈ c.names, IsAccepted name) : FailsOnly inv IsFailedWrite (c.run d) := by
  rw [c.run_eq, c.statement_eq, checked_of_accepted hnames, Effect.ofExcept_ok_bind]
  exact (hd.write c.template).map c.reply

end Driver.FailsAsDatabase

/-! ## The writer -/

section Writer

variable {inv : σ → Prop} {may : Fault → Prop} {respond : Responder σ} {s : σ}

theorem run_orRefused {p : Program α} (hp : FailsOnly inv IsFailedWrite (p.run respond))
    (hnotes : ∀ n s, inv s → ∃ t, respond (.note n) s = (.ok (), t)) (message : Fault → String)
    (substitute : α) (hs : inv s) :
    ∃ a t, (orRefused p message substitute).run respond s = (.ok a, t) := by
  obtain ⟨hinv, hmay⟩ := hp s hs
  rw [orRefused, run_bind, run_attempt]
  rcases h : p.run respond s with ⟨e | a, t⟩
  · rw [h] at hinv hmay
    -- the only failure that is possible is the one that is passed over
    obtain ⟨m, c, rfl⟩ := hmay e rfl
    obtain ⟨u, hu⟩ := hnotes ⟨true, writerName, message (.graphWrite m c)⟩ t hinv
    have hreport : (report writerName (message (.graphWrite m c))).run respond t = (.ok (), u) :=
      (run_request respond _ t).trans hu
    refine ⟨substitute, u, ?_⟩
    dsimp only
    rw [run_bind, hreport]
    rfl
  · exact ⟨a, t, rfl⟩

theorem FailsOnly.run_map {p : Program α} (hp : FailsOnly inv may (p.run respond)) (f : α → β) :
    FailsOnly inv may ((f <$> p).run respond) := by
  intro s hs
  have hmap := hp.map f s hs
  rw [Effect.map_eq] at hmap
  rw [Program.run_map]
  exact hmap

theorem FailsOnly.run_request {r : Request} (hr : FailsOnly inv may (respond r)) :
    FailsOnly inv may ((request r).run respond) := by
  intro s hs
  rw [Program.run_request]
  exact hr s hs

end Writer

namespace Driver.FailsAsDatabase

variable {d : Driver σ} {inv : σ → Prop} {others : (r : Request) → Effect σ r.Reply}

/-! ### Requests that write -/

section Serve

variable (hd : d.FailsAsDatabase inv)

include hd

theorem serve_mergeNode {label : String} {key : Props}
    (hnames : ∀ name ∈ (WriteCall.mergeNode label key).names, IsAccepted name) :
    FailsOnly inv IsFailedWrite (d.serve others (.mergeNode label key)) :=
  (hd.writeCall (.mergeNode label key) hnames).bind fun v ↦ failsOnly_pure (idOf v)

theorem serve_mergeRelationship {type fromLabel toLabel : String} {fromKey toKey : Props}
    {attrs : Option Props} (hnames : ∀ name ∈ (WriteCall.mergeRelationship type fromLabel fromKey
      toLabel toKey (attrs.getD [])).names, IsAccepted name) :
    FailsOnly inv IsFailedWrite
      (d.serve others (.mergeRelationship type fromLabel fromKey toLabel toKey attrs)) :=
  FailsOnly.bind
    (hd.writeCall (.mergeRelationship type fromLabel fromKey toLabel toKey (attrs.getD [])) hnames)
    fun v ↦ failsOnly_pure (idOf v)

theorem serve_deleteRelationship {type fromLabel toLabel : String} {fromKey toKey : Props}
    {attrs : Option Props} (hnames : ∀ name ∈ (WriteCall.deleteRelationship type fromLabel fromKey
      toLabel toKey (attrs.getD [])).names, IsAccepted name) :
    FailsOnly inv IsFailedWrite
      (d.serve others (.deleteRelationship type fromLabel fromKey toLabel toKey attrs)) :=
  FailsOnly.bind
    (hd.writeCall (.deleteRelationship type fromLabel fromKey toLabel toKey (attrs.getD [])) hnames)
    fun n ↦ failsOnly_pure (numberOf n)

end Serve

end Driver.FailsAsDatabase

/-! ### The names of the writer -/

theorem isAccepted_file (path : Datum) :
    ∀ name ∈ fileLabel :: keysOf (fileKey path), IsAccepted name := by
  change ∀ name ∈ [fileLabel, "path"], IsAccepted name
  decide

theorem isAccepted_function (own path : Datum) :
    ∀ name ∈ functionLabel :: keysOf (functionKey own path), IsAccepted name := by
  change ∀ name ∈ [functionLabel, "name", "path"], IsAccepted name
  decide

theorem isAccepted_import (clause : Datum) :
    ∀ name ∈ importsFrom :: keysOf [("clause", clause)], IsAccepted name := by
  change ∀ name ∈ [importsFrom, "clause"], IsAccepted name
  decide

theorem isAccepted_call : ∀ name ∈ calls :: keysOf [], IsAccepted name := by decide

/-- **The writer's merges and deletions always come to a result**, if all that fails is the
database. -/
theorem Driver.FailsAsDatabase.runProgram_eq_ok {d : Driver σ} {inv : σ → Prop}
    {others : (r : Request) → Effect σ r.Reply} (hd : d.FailsAsDatabase inv)
    (hnotes : ∀ n s, inv s → ∃ t, others (.note n) s = (.ok (), t)) {c : WriterCall}
    (hc : c.IsSingle) {s : σ} (hs : inv s) : (d.runProgram others c.program s).1 = .ok () := by
  have hfinish : ∀ {α : Type} {p : Program α} (message : Fault → String) (substitute : α),
      FailsOnly inv IsFailedWrite (p.run fun r s ↦ d.serve others r s) →
      (d.runProgram others ((fun _ ↦ ()) <$> orRefused p message substitute) s).1 = .ok () := by
    intro α p message substitute hp
    obtain ⟨a, t, hrun⟩ := run_orRefused hp hnotes message substitute hs
    rw [runProgram, Program.run_map, hrun]
    rfl
  cases c with
  | mergeFile path =>
    refine hfinish _ _ ((FailsOnly.run_request ?_).run_map some)
    exact hd.serve_mergeNode (isAccepted_file _)
  | mergeFunction name path =>
    refine hfinish _ _ ((FailsOnly.run_request ?_).run_map some)
    exact hd.serve_mergeNode (isAccepted_function _ _)
  | mergeImport source target clause =>
    refine hfinish _ _ ((FailsOnly.run_request ?_).run_map fun _ ↦ true)
    apply hd.serve_mergeRelationship
    exact List.forall_mem_append.mpr ⟨isAccepted_file _, List.forall_mem_append.mpr
      ⟨isAccepted_file _, isAccepted_import _⟩⟩
  | mergeCall callerName callerPath calleeName calleePath =>
    refine hfinish _ _ ((FailsOnly.run_request ?_).run_map fun _ ↦ true)
    apply hd.serve_mergeRelationship
    exact List.forall_mem_append.mpr ⟨isAccepted_function _ _, List.forall_mem_append.mpr
      ⟨isAccepted_function _ _, isAccepted_call⟩⟩
  | deleteImport source target clause =>
    refine hfinish _ _ (FailsOnly.run_request ?_)
    apply hd.serve_deleteRelationship
    exact List.forall_mem_append.mpr ⟨isAccepted_file _, List.forall_mem_append.mpr
      ⟨isAccepted_import _, isAccepted_file _⟩⟩
  | deleteCall callerName callerPath calleeName calleePath =>
    refine hfinish _ _ (FailsOnly.run_request ?_)
    apply hd.serve_deleteRelationship
    exact List.forall_mem_append.mpr ⟨isAccepted_function _ _, List.forall_mem_append.mpr
      ⟨isAccepted_call, isAccepted_function _ _⟩⟩
  | syncImports path imports => exact False.elim hc

/-! ## Scripts -/

def Turn.IsOfDatabase : Turn → Prop
  | table _ => True
  | failure _ e => e.IsOfDatabase

namespace ScriptedDatabase

/-- A script without other failures: the database fails only as databases do. -/
theorem failsAsDatabase :
    driver.FailsAsDatabase fun db ↦ ∀ turn ∈ db.script, turn.IsOfDatabase where
  openSession := by
    rintro ⟨_ | ⟨t | ⟨_ | _, e⟩, rest⟩, sent, used, notices⟩ hscript
    · exact ⟨hscript, fun _ he ↦ nomatch he⟩
    · exact ⟨hscript, fun _ he ↦ nomatch he⟩
    · exact ⟨hscript, fun _ he ↦ nomatch he⟩
    · rw [List.forall_mem_cons] at hscript
      exact ⟨hscript.2, fun _ he ↦ Except.error.inj he ▸ hscript.1⟩
  run := by
    rintro mode q ⟨_ | ⟨t | ⟨opening, e⟩, rest⟩, sent, used, notices⟩ hscript
    · exact ⟨hscript, fun _ he ↦ nomatch he⟩
    · rw [List.forall_mem_cons] at hscript
      exact ⟨hscript.2, fun _ he ↦ nomatch he⟩
    · rw [List.forall_mem_cons] at hscript
      exact ⟨hscript.2, fun _ he ↦ Except.error.inj he ▸ hscript.1⟩

/-- Of the requests that are not for the graph, only notes are answered. -/
def takesNotes : (r : Request) → Effect ScriptedDatabase r.Reply
  | .note n => modify (note n)
  | _ => throw (.outside .runtime "not available")

end ScriptedDatabase

/-- **What calls come to**, whatever the database does.

A call that writes runs one transaction, or two if the first one violates a constraint, and a call
that reads runs each of its statements once. A failure of the database that is left becomes a failed
write or a failed query and is kept inside it; every other failure is passed on. So the writer's merges
and deletions never fail if all that fails is the database. -/
theorem takes_of_calls (d : Driver σ) :
    (∀ (c : WriteCall) (s : σ), ∃ events,
      Records (c.run d) (c.run d.recording) s events ∧ c.Takes events (c.run d s).1) ∧
    (∀ (c : ReadCall) (s : σ), ∃ events,
      Records (c.run d) (c.run d.recording) s events ∧ c.Takes events (c.run d s).1) ∧
    ∀ (inv : σ → Prop) (others : (r : Request) → Effect σ r.Reply), d.FailsAsDatabase inv →
      (∀ n s, inv s → ∃ t, others (.note n) s = (.ok (), t)) →
      ∀ (c : WriterCall) (s : σ), c.IsSingle → inv s →
        (d.runProgram others c.program s).1 = .ok () :=
  ⟨fun c s ↦ c.exists_takes d s, fun c s ↦ c.exists_takes d s,
    fun _ _ hd hnotes _ _ hc hs ↦ hd.runProgram_eq_ok hnotes hc hs⟩

/-- A file is merged while another one is, and then the database is gone. -/
theorem takes_of_calls_outage :
    (ScriptedDatabase.driver.runProgram ScriptedDatabase.takesNotes
      (WriterCall.mergeFile "/a.ts").program
      (.new [.failure false (.outside .constraint "already exists"),
        .failure true (.outside .unavailable "connection refused")])).1 = .ok () := by
  refine (takes_of_calls ScriptedDatabase.driver).2.2 _ ScriptedDatabase.takesNotes
    ScriptedDatabase.failsAsDatabase (fun n db _ ↦ ⟨_, rfl⟩) (.mergeFile "/a.ts") _ trivial ?_
  exact List.forall_mem_cons.mpr ⟨trivial, List.forall_mem_cons.mpr
    ⟨trivial, fun _ h ↦ absurd h List.not_mem_nil⟩⟩

end Cypher

end CodeAtlas
