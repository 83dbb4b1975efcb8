import CodeAtlas.Proofs.Enrichment.Surroundings

/-!
# Draining where every service succeeds

If no service fails and every summary says something, a function has only one course: its summary is
asked for, embedded and stored. So draining the queue hands out the items that wait, in their order,
sends one prompt for each and stores one record of each (`Drained`). The graph is not spoken to.
-/

namespace CodeAtlas

open Syntax (FunctionKey)

/-- A service succeeds: a completion says something, and neither an embedding nor a store fails. The
other requests are not to services that could fail here. -/
def Exchange.succeeds : Exchange → Bool
  | ⟨.complete _, .ok reply⟩ => !(Reply.withoutReasoning reply).isEmpty
  | ⟨.complete _, .error _⟩ => false
  | ⟨.embed _, x⟩ => x.isOk
  | ⟨.storeRecord _, x⟩ => x.isOk
  | ⟨.flushGraph, x⟩ => x.isOk
  | _ => true

namespace Enrichment

open Program

/-- The record is one of the item, with a summary that says something. -/
def IsRecordOf (item : Item) (record : FunctionRecord) : Prop :=
  ∃ summary vector, summary.isEmpty = false ∧ record = recordOf item summary vector

section IsRecordOf

variable {items : List Item} {records : List FunctionRecord}

/-- The records of items are under their ids. -/
theorem ids_of_forall₂ (h : List.Forall₂ IsRecordOf items records) :
    records.map (·.id) = items.map (·.functionId) := by
  induction h with
  | nil => rfl
  | cons hrecord _ ih =>
    obtain ⟨summary, vector, -, rfl⟩ := hrecord
    rw [List.map_cons, List.map_cons, ih]
    rfl

theorem exists_item_of_mem (h : List.Forall₂ IsRecordOf items records) {r : FunctionRecord}
    (hr : r ∈ records) : ∃ i ∈ items, IsRecordOf i r := by
  induction h with
  | nil => exact absurd hr List.not_mem_nil
  | cons hrecord _ ih =>
    rcases List.mem_cons.mp hr with rfl | hr
    · exact ⟨_, List.mem_cons_self, hrecord⟩
    · obtain ⟨i, hi, hrecord⟩ := ih hr
      exact ⟨i, List.mem_cons_of_mem _ hi, hrecord⟩

end IsRecordOf

/-- The prompt for the summary of a function. -/
def summaryPrompt (limit : Int) (item : Item) : String :=
  Prompt.summary (Text.cut limit item.code)

variable {digest : Digest} {permits : Exchange → Bool} {limit : Int} {item : Item}
  {items : List Item} {a b c : Surroundings}

/-! ## One function -/

/-- If all goes well, the prompt is sent and the record is stored. -/
theorem Course.of_succeeds {course : List Exchange} {success : Bool}
    (h : Course limit item course success) (hcourse : ∀ e ∈ course, e.succeeds = true) :
    success = true ∧ prompts course = [summaryPrompt limit item] ∧
      ∃ record, IsRecordOf item record ∧ storedIn course = [record] := by
  cases h with
  | noSummary e => exact absurd (hcourse _ List.mem_cons_self) Bool.false_ne_true
  | blankSummary reply hblank =>
    have hsays : (!(Reply.withoutReasoning reply).isEmpty) = true := hcourse _ List.mem_cons_self
    rw [hblank] at hsays
    exact absurd hsays Bool.false_ne_true
  | notEmbedded reply e =>
    exact absurd (hcourse _ (List.mem_cons_of_mem _ List.mem_cons_self)) Bool.false_ne_true
  | notStored reply vector e =>
    exact absurd (hcourse _ (List.mem_cons_of_mem _ (List.mem_cons_of_mem _ List.mem_cons_self)))
      Bool.false_ne_true
  | stored reply vector hsays => exact ⟨rfl, rfl, _, ⟨_, vector, hsays, rfl⟩, rfl⟩

theorem isQuiet_orEnrichmentFault {α : Type} {p : Program α} {what : String} (hp : p.IsQuiet) :
    (orEnrichmentFault p what item).IsQuiet := by
  apply hp.attempt.bind
  intro x
  cases x <;> trivial

theorem isQuiet_processNext : (processNext limit).IsQuiet := by
  have hsummary : ∀ code, (summarize limit code).IsQuiet :=
    fun _ ↦ (isQuiet_request rfl).bind fun _ ↦ trivial
  have henrich : ∀ item, (enrich limit item).IsQuiet := by
    intro item
    apply (isQuiet_orEnrichmentFault (hsummary item.code)).bind
    intro summary
    split
    · trivial
    · exact (isQuiet_orEnrichmentFault (isQuiet_request rfl)).bind fun _ ↦
        isQuiet_orEnrichmentFault (isQuiet_request rfl)
  apply (isQuiet_request rfl).bind
  intro item?
  cases item? with
  | none => trivial
  | some item =>
    apply (henrich item).attempt.bind
    intro x
    rcases x with e | ⟨⟩
    · cases e with
      | enrichment m c =>
        exact (isQuiet_request rfl).bind fun _ ↦ (isQuiet_request rfl).bind fun _ ↦ trivial
      | _ => trivial
    · exact (isQuiet_request rfl).bind fun _ ↦ trivial

/-- What the enrichment of items comes to, if all goes well. -/
structure Enriched (limit : Int) (items : List Item) (a b : Surroundings) : Prop where
  graph : b.graph = a.graph
  handedOut : handedOut b.log = handedOut a.log ++ items
  prompts : prompts b.log = prompts a.log ++ items.map (summaryPrompt limit)
  stored : ∃ records, List.Forall₂ IsRecordOf items records ∧
    storedIn b.log = storedIn a.log ++ records

theorem Enriched.of_deeds (hgraph : b.graph = a.graph) (hdeeds : deeds b.log = deeds a.log) :
    Enriched limit [] a b := by
  obtain ⟨hhanded, hrest⟩ := Prod.mk.inj hdeeds
  obtain ⟨hprompts, hstored⟩ := Prod.mk.inj hrest
  refine ⟨hgraph, ?_, ?_, [], .nil, ?_⟩
  · rw [hhanded, List.append_nil]
  · rw [hprompts, List.map_nil, List.append_nil]
  · rw [hstored, List.append_nil]

theorem Enriched.trans {items' : List Item} (hab : Enriched limit items a b)
    (hbc : Enriched limit items' b c) : Enriched limit (items ++ items') a c := by
  obtain ⟨records, hrecords, hstored⟩ := hab.stored
  obtain ⟨records', hrecords', hstored'⟩ := hbc.stored
  refine ⟨hbc.graph.trans hab.graph, ?_, ?_, records ++ records', ?_, ?_⟩
  · rw [hbc.handedOut, hab.handedOut, List.append_assoc]
  · rw [hbc.prompts, hab.prompts, List.map_append, List.append_assoc]
  · exact List.rel_append hrecords hrecords'
  · rw [hstored', hstored, List.append_assoc]

/-- The oldest function is enriched. -/
theorem ends_processNext_of_succeeds (hpermits : ∀ e, permits e = true → e.succeeds = true)
    {rest : List Item} (hq : a.queue.pending = item :: rest) :
    (processNext limit).Ends (Surroundings.Answers digest permits) (fun x b ↦
      x = .ok (some true) ∧ b.queue = a.queue.afterFirst item rest true ∧
      Enriched limit [item] a b) a := by
  have hcourse := (ends_processNext hq).of_view
    (p := processNext limit) (b := Surroundings.Answers digest permits)
    (fun b : Surroundings ↦ (b.queue, b.log)) fun r g x h hanswer ↦ ⟨hanswer.queue, hanswer.log⟩
  refine ((hcourse.and (ends_log _ a)).and (isQuiet_processNext.ends_graph a)).mono ?_
  rintro x b ⟨⟨⟨course, success, hcourse, hx, hqueue, hhanded, hservices⟩, new, hlog, hnew⟩, hgraph⟩
  -- The course is among the exchanges that the program has added.
  have hcourseNew : course = services new := by
    rw [hlog, services_append] at hservices
    exact (List.append_cancel_left hservices).symm
  have hsucceeds : ∀ e ∈ course, e.succeeds = true := by
    intro e he
    rw [hcourseNew] at he
    exact hpermits e (hnew e (List.mem_of_mem_filter he))
  obtain ⟨rfl, hprompts, record, hrecord, hstored⟩ := hcourse.of_succeeds hsucceeds
  refine ⟨hx, hqueue, hgraph, hhanded, ?_, [record], .cons hrecord .nil, ?_⟩
  · rw [← prompts_services b.log, hservices, prompts_append, prompts_services, hprompts]
    rfl
  · rw [← storedIn_services b.log, hservices, storedIn_append, storedIn_services, hstored]

/-! ## All functions that wait -/

/-- What becomes of the surroundings when the queue is drained and all goes well. -/
structure Drained (limit : Int) (a b : Surroundings) : Prop extends
    Enriched limit a.queue.pending a b where
  pending : b.queue.pending = []
  capacity : b.queue.capacity = a.queue.capacity
  mem_processed : ∀ k, k ∈ b.queue.processed ↔ k ∈ a.queue.processed ∨ k ∈ a.queue.keys
  failed : b.queue.failed = a.queue.failed

theorem ends_processUpTo (hpermits : ∀ e, permits e = true → e.succeeds = true) {n : ℕ}
    (hn : a.queue.pending.length = n) :
    (processUpTo limit n).Ends (Surroundings.Answers digest permits)
      (fun x b ↦ x = .ok n ∧ Drained limit a b) a := by
  -- The number of turns left is the number of functions that wait.
  induction n generalizing a with
  | zero =>
    have hempty : a.queue.pending = [] := List.eq_nil_of_length_eq_zero hn
    refine ⟨rfl, hempty ▸ .of_deeds rfl rfl, hempty, rfl, fun k ↦ ?_, rfl⟩
    rw [Queue.keys, hempty, List.map_nil]
    exact (or_iff_left List.not_mem_nil).symm
  | succ n ih =>
    obtain ⟨item, rest, hpending⟩ := List.exists_of_length_succ _ hn
    refine ends_bind.mpr ((ends_processNext_of_succeeds hpermits hpending).mono ?_)
    rintro x b ⟨rfl, hqueue, hfirst⟩
    have hrest : b.queue.pending = rest := by
      rw [hqueue, Queue.afterFirst, Queue.pending_settle]
    have hlength : b.queue.pending.length = n := by
      rw [hpending, List.length_cons] at hn
      rw [hrest]
      exact Nat.succ.inj hn
    refine ends_bind.mpr ((ih hlength).mono ?_)
    rintro y c ⟨rfl, hdrained⟩
    refine ⟨rfl, ?_, hdrained.pending, ?_, fun k ↦ ?_, ?_⟩
    · rw [hpending, ← hrest]
      exact hfirst.trans hdrained.toEnriched
    · rw [hdrained.capacity, hqueue, Queue.afterFirst, Queue.capacity_settle]
    · rw [hdrained.mem_processed, hqueue, Queue.keys_afterFirst, Queue.afterFirst,
        Queue.mem_processed_settle, Queue.keys, hpending, List.map_cons, List.mem_cons, or_assoc]
      simp only [true_and]
    · rw [hdrained.failed, hqueue]
      rfl

/-- **Draining enriches what waits**, if all goes well. -/
theorem ends_drain (hpermits : ∀ e, permits e = true → e.succeeds = true) :
    (drain limit).Ends (Surroundings.Answers digest permits)
      (fun x b ↦ x = .ok a.queue.pending.length ∧ Drained limit a b) a := by
  refine ends_bind.mpr (ends_request.mpr ?_)
  intro x b hb
  obtain ⟨⟨running, rfl⟩, hqueue⟩ := hb.queue
  have hdeeds : deeds b.log = deeds a.log := by
    rw [hb.log]
    exact deeds_append rfl _ _
  have hlength : b.queue.pending.length = (a.queue.stats running).pending :=
    congrArg (List.length ·.pending) hqueue
  refine (ends_processUpTo hpermits hlength).mono ?_
  rintro x c ⟨rfl, hdrained⟩
  have henriched : Enriched limit ([] ++ b.queue.pending) a c :=
    (Enriched.of_deeds hb.graph.2 hdeeds).trans hdrained.toEnriched
  rw [List.nil_append, hqueue] at henriched
  exact ⟨rfl, henriched, hdrained.pending, hqueue ▸ hdrained.capacity,
    hqueue ▸ hdrained.mem_processed, hqueue ▸ hdrained.failed⟩

end Enrichment

end CodeAtlas
