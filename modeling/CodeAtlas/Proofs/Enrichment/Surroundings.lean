import CodeAtlas.Proofs.Enrichment.Courses
import CodeAtlas.Proofs.Enrichment.Holdings
import CodeAtlas.Proofs.Graph.Answers
import CodeAtlas.Proofs.Program.Refusals
import CodeAtlas.Proofs.Program.Views

/-!
# The surroundings as a whole

Indexing and enrichment meet in three places: the graph, the queue and the records. What is pending
has been offered by the indexing, what the indexing need not offer has been stored by the enrichment.
So here a program is worked through in states that have all three parts, and each part answers for
itself (`Surroundings.Answers`).

The records are not a part of their own. A store in memory holds what was put in it, so the records
can be read off the exchanges (`recordsIn`), like the items that were handed out and the prompts that
were sent.

Which exchanges may happen at all is a parameter. It is how a statement says that services succeed,
or that an offer finds room.
-/

namespace CodeAtlas

/-! ## What exchanges tell -/

/-- The prompt that is sent in an exchange. -/
def Exchange.prompt? : Exchange → Option String
  | ⟨.complete prompt, _⟩ => some prompt
  | _ => none

/-- The record that is stored in an exchange. -/
def Exchange.stored? : Exchange → Option FunctionRecord
  | ⟨.storeRecord record, .ok _⟩ => some record
  | _ => none

/-- The prompts that are sent, in order. -/
def prompts (log : List Exchange) : List String := log.filterMap Exchange.prompt?

/-- The records that are stored, in order. -/
def storedIn (log : List Exchange) : List FunctionRecord := log.filterMap Exchange.stored?

/-- The records after the exchanges. -/
def recordsIn (log : List Exchange) : List FunctionRecord := holdings (storedIn log)

/-- All that the exchanges tell about the enrichment. -/
def deeds (log : List Exchange) : List Item × List String × List FunctionRecord :=
  (handedOut log, prompts log, storedIn log)

theorem prompts_append (log log' : List Exchange) :
    prompts (log ++ log') = prompts log ++ prompts log' := List.filterMap_append

theorem storedIn_append (log log' : List Exchange) :
    storedIn (log ++ log') = storedIn log ++ storedIn log' := List.filterMap_append

/-- Prompts are sent to services. -/
theorem prompts_services (log : List Exchange) : prompts (services log) = prompts log := by
  rw [prompts, services, List.filterMap_filter]
  apply List.filterMap_congr
  intro e _
  obtain ⟨r, x⟩ := e
  cases r <;> rfl

/-- Records are stored by services. -/
theorem storedIn_services (log : List Exchange) : storedIn (services log) = storedIn log := by
  rw [storedIn, services, List.filterMap_filter]
  apply List.filterMap_congr
  intro e _
  obtain ⟨r, x⟩ := e
  cases r <;> rfl

theorem recordsIn_eq_of_deeds {log log' : List Exchange} (h : deeds log = deeds log') :
    recordsIn log = recordsIn log' :=
  congrArg (fun d : List Item × List String × List FunctionRecord ↦ holdings d.2.2) h

/-- Requests whose exchanges tell something about the enrichment. -/
def Request.tells : Request → Bool
  | complete _ | storeRecord _ | takeItem => true
  | _ => false

/-- Requests that tell nothing and leave the queue as it is. -/
def Request.isAside : Request → Bool
  | offer .. | settle .. => false
  | r => !r.tells

theorem Request.tells_of_isAside {r : Request} (hr : r.isAside = true) : r.tells = false := by
  cases r <;> first | rfl | cases hr

theorem deeds_append {r : Request} (hr : r.tells = false) (x : Except Fault r.Reply)
    (log : List Exchange) : deeds (log ++ [⟨r, x⟩]) = deeds log := by
  have hnone : handedOut [⟨r, x⟩] = [] ∧ prompts [⟨r, x⟩] = [] ∧ storedIn [⟨r, x⟩] = [] := by
    cases r <;> first | exact ⟨rfl, rfl, rfl⟩ | cases hr
  rw [deeds, handedOut_append, prompts_append, storedIn_append, hnone.1, hnone.2.1, hnone.2.2]
  simp only [List.append_nil]
  rfl

/-! ## Answers -/

/-- A record store in memory answers that it has a record if it has, and a record that is put in it
replaces the one with the same id. The other requests leave it alone. -/
def RecordAnswers : Answering (List FunctionRecord)
  | .hasRecord id, records, x, records' =>
    x = .ok (records.any fun q ↦ q.id == id) ∧ records' = records
  | .storeRecord record, records, x, records' =>
    x = .ok () ∧ records' = Rehearsal.putRecord record records
  | _, records, _, records' => records' = records

/-- The state has records, and they answer. -/
def HoldsRecords {σ : Type} (respond : Responder σ) (records : σ → List FunctionRecord) : Prop :=
  ∀ r s, RecordAnswers r (records s) (respond r s).1 (records (respond r s).2)

/-- The parts of a state that indexing and enrichment speak to. -/
structure Surroundings where
  graph : Graph
  queue : Queue
  log : List Exchange

/-- Each part answers for itself, and every exchange is one that may happen and is put down. -/
structure Surroundings.Answers (digest : Digest) (permits : Exchange → Bool) (r : Request)
    (a : Surroundings) (x : Except Fault r.Reply) (b : Surroundings) : Prop where
  permitted : permits ⟨r, x⟩ = true
  graph : Graph.Answers digest r a.graph x b.graph
  queue : Queue.Answers r a.queue x b.queue
  records : RecordAnswers r (recordsIn a.log) x (recordsIn b.log)
  log : b.log = a.log ++ [⟨r, x⟩]

/-- The records follow the exchanges. -/
theorem RecordAnswers.eq_recordsIn {r : Request} {log : List Exchange} {x : Except Fault r.Reply}
    {records : List FunctionRecord} (h : RecordAnswers r (recordsIn log) x records) :
    records = recordsIn (log ++ [⟨r, x⟩]) := by
  rw [recordsIn, storedIn_append, holdings, List.foldl_append]
  cases r
  case storeRecord record =>
    obtain ⟨rfl, rfl⟩ := h
    rfl
  case hasRecord id => exact h.2
  all_goals exact h

namespace Program

variable {α σ : Type} {digest digest' : Digest} {permits : Exchange → Bool} {p : Program α}
  {a : Surroundings}

/-- **Runs end as programs do**, if every exchange of the run is one that may happen. -/
theorem Ends.run_surroundings {respond : Responder σ} {store : σ → Store} {queue : σ → Queue}
    {records : σ → List FunctionRecord} (hserves : Serves digest store respond)
    (hqueue : HoldsQueue respond queue) (hrecords : HoldsRecords respond records)
    {Q : Except Fault α → Surroundings → Prop} {s : σ}
    (hp : p.Ends (Surroundings.Answers digest' permits) Q a) (hgraph : (store s).Holds a.graph)
    (hq : queue s = a.queue) (hr : records s = recordsIn a.log)
    (hagree : ∀ r ∈ p.trace respond s, ∀ t ∈ r.hashed digest, digest t = digest' t)
    (hpermits : ∀ e ∈ p.exchanges respond s, permits e = true) :
    ∃ g, (store (p.run respond s).2).Holds g ∧
      records (p.run respond s).2 = recordsIn (a.log ++ p.exchanges respond s) ∧
      Q (p.run respond s).1
        ⟨g, queue (p.run respond s).2, a.log ++ p.exchanges respond s⟩ := by
  induction p generalizing s a with
  | done v =>
    obtain ⟨g, q, log⟩ := a
    obtain rfl : queue s = q := hq
    refine ⟨g, hgraph, ?_, ?_⟩
    · rw [exchanges, List.append_nil]
      exact hr
    · rw [exchanges, List.append_nil]
      exact hp
  | fail e =>
    obtain ⟨g, q, log⟩ := a
    obtain rfl : queue s = q := hq
    refine ⟨g, hgraph, ?_, ?_⟩
    · rw [exchanges, List.append_nil]
      exact hr
    · rw [exchanges, List.append_nil]
      exact hp
  | ask r k ih =>
    rw [trace, List.forall_mem_cons] at hagree
    rw [exchanges, List.forall_mem_cons] at hpermits
    obtain ⟨g, hg, hanswer⟩ := hserves.answers hagree.1 hgraph
    have hstored := hrecords r s
    rw [hr] at hstored
    have hb : Surroundings.Answers digest' permits r a (respond r s).1
        ⟨g, queue (respond r s).2, a.log ++ [⟨r, (respond r s).1⟩]⟩ :=
      ⟨hpermits.1, hanswer, hq ▸ hqueue r s, hstored.eq_recordsIn ▸ hstored, rfl⟩
    have hrest := ih _ (hp _ _ hb) hg rfl hstored.eq_recordsIn hagree.2 hpermits.2
    rw [List.append_assoc] at hrest
    exact hrest

/-- What a program adds to the log are exchanges that may happen. -/
theorem ends_log (p : Program α) (a : Surroundings) :
    p.Ends (Surroundings.Answers digest permits)
      (fun _ b ↦ ∃ new, b.log = a.log ++ new ∧ ∀ e ∈ new, permits e = true) a := by
  suffices h : ∀ (past : List Exchange) (a₀ : Surroundings), a.log = a₀.log ++ past →
      (∀ e ∈ past, permits e = true) → p.Ends (Surroundings.Answers digest permits)
        (fun _ b ↦ ∃ new, b.log = a₀.log ++ new ∧ ∀ e ∈ new, permits e = true) a from
    h [] a (List.append_nil _).symm fun _ he ↦ absurd he List.not_mem_nil
  intro past a₀ hlog hpast
  induction p generalizing a past with
  | done v => exact ⟨past, hlog, hpast⟩
  | fail e => exact ⟨past, hlog, hpast⟩
  | ask r k ih =>
    intro x b hb
    refine ih x b (past ++ [⟨r, x⟩]) ?_ ?_
    · rw [hb.log, hlog, List.append_assoc]
    · rw [List.forall_mem_append, List.forall_mem_singleton]
      exact ⟨hpast, hb.permitted⟩

/-- The program leaves the queue as it is and does nothing for the enrichment. -/
abbrev IsAside (p : Program α) : Prop :=
  p.Asks (fun r ↦ r.isAside = true) (fun _ _ ↦ True) fun _ ↦ True

theorem IsAside.bind {β : Type} {f : α → Program β} (hp : p.IsAside) (hf : ∀ v, (f v).IsAside) :
    (p >>= f).IsAside := Asks.bind hp fun v _ ↦ hf v

theorem isAside_request {r : Request} (hr : r.isAside = true) : (request r).IsAside :=
  (asks_request hr).mono fun _ _ ↦ trivial

theorem IsAside.attempt (hp : p.IsAside) : p.attempt.IsAside :=
  (Asks.attempt hp).mono fun _ _ ↦ trivial

theorem IsAside.ends (hp : p.IsAside) (a : Surroundings) :
    p.Ends (Surroundings.Answers digest permits)
      (fun _ b ↦ b.queue = a.queue ∧ deeds b.log = deeds a.log) a := by
  have hview : ∀ r (b : Surroundings) x c, r.isAside = true →
      Surroundings.Answers digest permits r b x c →
      (c.queue, deeds c.log) = (b.queue, deeds b.log) := by
    intro r b x c hr hc
    have hqueue : c.queue = b.queue := by
      have hanswer := hc.queue
      cases r
      case queueStats | note => exact hanswer.2
      all_goals first | exact hanswer | cases hr
    rw [hqueue, hc.log, deeds_append (Request.tells_of_isAside hr)]
  refine (hp.ends_view (fun b ↦ (b.queue, deeds b.log)) hview a).mono ?_
  intro _ b hb
  exact Prod.mk.inj hb

/-- A program that writes nothing to the graph leaves it as it is. -/
theorem IsQuiet.ends_graph (hp : p.IsQuiet) (a : Surroundings) :
    p.Ends (Surroundings.Answers digest permits) (fun _ b ↦ b.graph = a.graph) a := by
  refine Asks.ends_view Surroundings.graph ?_ hp a
  intro r b x c hr hc
  have hanswer := hc.graph
  cases r with
  | mergeNode | mergeRelationship | deleteRelationship => exact Bool.noConfusion hr
  | findRelationships =>
    rw [Graph.Answers, Graph.answer?] at hanswer
    dsimp only at hanswer
    split_ifs at hanswer <;> exact hanswer.2
  | _ => exact hanswer.2

end Program

/-! ## A rehearsal -/

/-- The records of a rehearsal are kept in memory. -/
theorem holdsRecords_serve : HoldsRecords Rehearsal.serve Rehearsal.records := by
  intro request r
  cases request
  case mergeNode | deleteRelationship =>
    exact (congrArg Rehearsal.records (Rehearsal.withStore_eq _ r)).trans rfl
  case flushGraph =>
    dsimp only [Rehearsal.serve]
    cases r.store.dirty with
    | true =>
      exact (congrArg Rehearsal.records r.saveStore_eq).trans rfl
    | false => rfl
  case takeItem =>
    dsimp only [Rehearsal.serve]
    cases r.queue.take <;> rfl
  case hasRecord | storeRecord => exact ⟨rfl, rfl⟩
  all_goals rfl

end CodeAtlas
