import CodeAtlas.Cypher.Client
import CodeAtlas.Proofs.Graph.PlainData
import CodeAtlas.Proofs.Program.Effects

/-!
# Transactions

What a client asks of a database can be written down: every session that it opens and every statement
that it runs, with what comes of it. A driver that writes this down is a driver like any other, so an
operation can be run on it, and the list that it leaves is the *course* of the operation.

Courses are put together from transactions. A transaction is one statement in a session of its own,
or a session that cannot be opened. A write is one transaction or two, and the second one only after
a violated constraint; reads are one transaction each, up to the first failure. What an operation
comes to is then read off its last transaction.
-/

namespace CodeAtlas

/-- A failure of the database: of the server, or of the connection to it. -/
def Fault.IsOfDatabase : Fault → Prop
  | outside .constraint _ | outside .cypherSyntax _ | outside .transient _ => True
  | outside .unavailable _ | outside .expired _ => True
  | _ => False

namespace Cypher

variable {σ α β : Type}

/-! ## Recording -/

/-- What is asked of a database, with what comes of it. -/
inductive Event where
  | session (outcome : Except Fault Unit)
  | run (mode : Mode) (q : Statement) (outcome : Except Fault Table)

/-- The statement that is sent. -/
def Event.statement? : Event → Option Statement
  | session _ => none
  | run _ q _ => some q

/-- Writes down what a step comes to. -/
def logged (step : Effect σ α) (event : Except Fault α → Event) : Effect (σ × List Event) α :=
  fun s ↦ ((step s.1).1, ((step s.1).2, s.2 ++ [event (step s.1).1]))

/-- The driver, with its sessions and statements written down. -/
def Driver.recording (d : Driver σ) : Driver (σ × List Event) where
  openSession := logged d.openSession .session
  run mode q := logged (d.run mode q) (.run mode q)
  close := fun s ↦ ((d.close s.1).1, ((d.close s.1).2, s.2))
  note n s := (d.note n s.1, s.2)

/-- The second step does what the first one does in the state, and the events are written down. -/
def Records (x : Effect σ α) (y : Effect (σ × List Event) α) (s : σ) (events : List Event) : Prop :=
  ∀ log, y (s, log) = ((x s).1, ((x s).2, log ++ events))

namespace Records

variable {x : Effect σ α} {y : Effect (σ × List Event) α} {f : α → Effect σ β}
  {g : α → Effect (σ × List Event) β} {s t : σ} {events more : List Event} {a : α} {e : Fault}

theorem of_logged (x : Effect σ α) (event : Except Fault α → Event) (s : σ) :
    Records x (logged x event) s [event (x s).1] := fun _ ↦ rfl

theorem of_pure (a : α) (s : σ) : Records (pure a : Effect σ α) (pure a) s [] := by
  intro log
  rw [Effect.pure_eq, Effect.pure_eq, List.append_nil]

theorem of_throw (e : Fault) (s : σ) :
    Records (throw e : Effect σ α) (throw e) s [] := by
  intro log
  rw [Effect.throw_eq, Effect.throw_eq, List.append_nil]

theorem bind_of_ok (h : Records x y s events) (hx : x s = (.ok a, t))
    (hf : Records (f a) (g a) t more) : Records (x >>= f) (y >>= g) s (events ++ more) := by
  intro log
  have hy : y (s, log) = (.ok a, (t, log ++ events)) := by rw [h, hx]
  rw [Effect.bind_of_ok hy, Effect.bind_of_ok hx, hf, List.append_assoc]

theorem bind_of_error (h : Records x y s events) (hx : x s = (.error e, t)) :
    Records (x >>= f) (y >>= g) s events := by
  intro log
  have hy : y (s, log) = (.error e, (t, log ++ events)) := by rw [h, hx]
  rw [Effect.bind_of_error hy, Effect.bind_of_error hx]

theorem map (h : Records x y s events) (f : α → β) : Records (f <$> x) (f <$> y) s events := by
  intro log
  rw [Effect.map_eq, Effect.map_eq, h]

theorem bind_ofExcept (h : Records x y s events) (f : α → Except Fault β) :
    Records (x >>= fun a ↦ ofExcept (f a)) (y >>= fun a ↦ ofExcept (f a)) s events := by
  intro log
  rw [Effect.bind_ofExcept_eq, Effect.bind_ofExcept_eq, h]

theorem orFail (h : Records x y s events) (change : Fault → Fault) :
    Records (x.orFail change) (y.orFail change) s events := by
  intro log
  rw [Effect.orFail_eq, Effect.orFail_eq, h]

end Records

/-! ## Transactions -/

/-- The events of a transaction and what comes of it. Nothing is run unless a session is opened. -/
inductive IsTransaction (mode : Mode) (q : Statement) : List Event → Except Fault Table → Prop
  | unopened (e : Fault) : IsTransaction mode q [.session (.error e)] (.error e)
  | executed (x : Except Fault Table) : IsTransaction mode q [.session (.ok ()), .run mode q x] x

namespace Driver

variable {d : Driver σ} {mode : Mode} {q : Statement} {s t : σ} {e : Fault}

/-- **A transaction is one session** with one statement at most. -/
theorem exists_isTransaction (d : Driver σ) (mode : Mode) (q : Statement) (s : σ) :
    ∃ events, Records (d.transact mode q) (d.recording.transact mode q) s events ∧
      IsTransaction mode q events (d.transact mode q s).1 := by
  have hopen := Records.of_logged d.openSession .session s
  rcases hx : d.openSession s with ⟨e | ⟨⟩, t⟩
  · rw [hx] at hopen
    refine ⟨_, hopen.bind_of_error hx, ?_⟩
    rw [transact, Effect.bind_of_error hx]
    exact .unopened e
  · rw [hx] at hopen
    refine ⟨_, hopen.bind_of_ok hx (Records.of_logged (d.run mode q) (.run mode q) t), ?_⟩
    rw [transact, Effect.bind_of_ok hx]
    exact .executed _

end Driver

/-! ## Failures and how they are told -/

variable {wrap : String → Option Fault → Fault} {e : Fault}

/-- What comes of the transactions and how it is told: a failure of the database becomes one of the
client, which keeps it inside, and all else is told as it is. -/
inductive Tells (wrap : String → Option Fault → Fault) : Except Fault α → Except Fault α → Prop
  | value (a : α) : Tells wrap (.ok a) (.ok a)
  | wrapped {e : Fault} (h : e.IsOfDatabase) (m : String) :
    Tells wrap (.error e) (.error (wrap m (some e)))
  | passed {e : Fault} (h : ¬ e.IsOfDatabase) : Tells wrap (.error e) (.error e)

namespace Driver

theorem databaseFault_of_not (h : ¬ e.IsOfDatabase) : databaseFault wrap e = e := by
  cases e with
  | outside kind m =>
    cases kind with
    | constraint | cypherSyntax | transient | unavailable | expired => exact absurd trivial h
    | _ => rfl
  | _ => rfl

theorem exists_databaseFault (wrap : String → Option Fault → Fault) (h : e.IsOfDatabase) :
    ∃ m, databaseFault wrap e = wrap m (some e) := by
  cases e with
  | outside kind m =>
    cases kind with
    | constraint | cypherSyntax | transient | unavailable | expired => exact ⟨_, rfl⟩
    | _ => exact False.elim h
  | _ => exact False.elim h

end Driver

theorem tells_databaseFault (wrap : String → Option Fault → Fault) (x : Except Fault α) :
    Tells wrap x (x.mapError (Driver.databaseFault wrap)) := by
  rcases x with e | a
  · rw [Except.mapError]
    by_cases h : e.IsOfDatabase
    · obtain ⟨m, htold⟩ := Driver.exists_databaseFault wrap h
      exact htold ▸ .wrapped h m
    · exact (Driver.databaseFault_of_not h).symm ▸ .passed h
  · exact .value a

theorem Tells.map {x y : Except Fault α} (h : Tells wrap x y) (f : α → β) :
    Tells wrap (x.map f) (y.map f) := by
  cases h with
  | value a => exact .value (f a)
  | wrapped h m => exact .wrapped h m
  | passed h => exact .passed h

theorem Tells.eq_ok {x : Except Fault α} {a : α} (h : Tells wrap x (.ok a)) : x = .ok a := by
  cases h
  rfl

theorem tells_repeatedFault (x : Except Fault α) :
    Tells .graphWrite x (x.mapError Driver.repeatedFault) := by
  rcases x with e | a
  · cases e with
    | outside kind m =>
      cases kind with
      | constraint =>
        -- only the message of a second violation is another one
        refine .wrapped ?_ _
        exact trivial
      | _ => exact tells_databaseFault .graphWrite (.error _)
    | _ => exact tells_databaseFault .graphWrite (.error _)
  · exact .value a

/-! ## Writes -/

/-- A violated constraint. Only after this a transaction is repeated. -/
def IsViolation (x : Except Fault α) : Prop := ∃ m, x = .error (.outside .constraint m)

/-- The events of a write and what it comes to; `value` is taken from the table that the database
answers with. -/
inductive IsWrite (q : Statement) (value : Table → α) : List Event → Except Fault α → Prop
  | once {events : List Event} {x : Except Fault Table} {y : Except Fault α}
    (h : IsTransaction .write q events x) (hx : ¬ IsViolation x)
    (hy : Tells .graphWrite (x.map value) y) : IsWrite q value events y
  | twice {events more : List Event} {x z : Except Fault Table} {y : Except Fault α}
    (h : IsTransaction .write q events x) (hx : IsViolation x)
    (hmore : IsTransaction .write q more z) (hy : Tells .graphWrite (z.map value) y) :
    IsWrite q value (events ++ more) y

theorem IsWrite.map {q : Statement} {value : Table → α} {events : List Event} {y : Except Fault α}
    (h : IsWrite q value events y) (f : α → β) :
    IsWrite q (fun t ↦ f (value t)) events (y.map f) := by
  have hmap : ∀ z : Except Fault Table, (z.map value).map f = z.map fun t ↦ f (value t) := by
    rintro (e | t)
    · rfl
    · rfl
  cases h with
  | once h hx hy => exact .once h hx (hmap _ ▸ hy.map f)
  | twice h hx hmore hy => exact .twice h hx hmore (hmap _ ▸ hy.map f)

namespace Driver

variable {d : Driver σ} {q : Statement} {s t : σ} {x : Except Fault Table}

theorem write_of_violation (h : d.transact .write q s = (x, t)) (hx : IsViolation x) :
    d.write q s = (((d.transact .write q t).1.map Table.first?).mapError repeatedFault,
      (d.transact .write q t).2) := by
  obtain ⟨m, rfl⟩ := hx
  have hagain : d.write q s = (Table.first? <$> (d.transact .write q).orFail repeatedFault) t := by
    rw [write, Effect.bind_of_ok Effect.attempt_eq, h]
    rfl
  rw [hagain, Effect.map_eq, Effect.orFail_eq]
  rcases (d.transact .write q t).1 with e | table
  · rfl
  · rfl

theorem write_of_not_violation (h : d.transact .write q s = (x, t)) (hx : ¬ IsViolation x) :
    d.write q s = ((x.map Table.first?).mapError (databaseFault .graphWrite), t) := by
  rw [write, Effect.bind_of_ok Effect.attempt_eq, h]
  rcases x with e | table
  · cases e with
    | outside kind m =>
      cases kind with
      | constraint => exact absurd ⟨m, rfl⟩ hx
      | _ => rfl
    | _ => rfl
  · rfl

/-- **A write is one transaction**, or two if the first one violates a constraint. -/
theorem exists_isWrite (d : Driver σ) (q : Statement) (s : σ) :
    ∃ events, Records (d.write q) (d.recording.write q) s events ∧
      IsWrite q Table.first? events (d.write q s).1 := by
  obtain ⟨events, hrecords, hfirst⟩ := d.exists_isTransaction .write q s
  -- the recording driver decides as the driver does, so both are taken apart by one case split
  rcases hx : d.transact .write q s with ⟨x, t⟩
  have hrecorded : ∀ log, d.recording.transact .write q (s, log) = (x, (t, log ++ events)) := by
    intro log
    rw [hrecords, hx]
  rw [hx] at hfirst
  by_cases hviolation : IsViolation x
  · obtain ⟨more, hagain, hsecond⟩ := d.exists_isTransaction .write q t
    refine ⟨events ++ more, ?_, ?_⟩
    · intro log
      rw [write_of_violation (hrecorded log) hviolation, write_of_violation hx hviolation, hagain,
        List.append_assoc]
    · rw [write_of_violation hx hviolation]
      exact .twice hfirst hviolation hsecond (tells_repeatedFault _)
  · refine ⟨events, ?_, ?_⟩
    · intro log
      rw [write_of_not_violation (hrecorded log) hviolation, write_of_not_violation hx hviolation]
    · rw [write_of_not_violation hx hviolation]
      exact .once hfirst hviolation (tells_databaseFault _ _)

end Driver

/-! ## Reads -/

/-- The events of reads one after the other, and the records that they come to. The first failure
ends them. -/
inductive AreReads : List Statement → List Event → Except Fault (List (List Record)) → Prop
  | done : AreReads [] [] (.ok [])
  | failed {q : Statement} {rest : List Statement} {events : List Event} {x : Except Fault Table}
    {e : Fault} (h : IsTransaction .read q events x)
    (he : Tells .graphQuery (x.bind Table.records) (.error e)) :
    AreReads (q :: rest) events (.error e)
  | next {q : Statement} {rest : List Statement} {events more : List Event} {t : Table}
    {records : List Record} {y : Except Fault (List (List Record))}
    (h : IsTransaction .read q events (.ok t)) (ht : t.records = .ok records)
    (hrest : AreReads rest more y) : AreReads (q :: rest) (events ++ more) (y.map (records :: ·))

namespace Driver

/-- A read is one transaction. That records cannot be made of its table is told like a failure of
the transaction. -/
theorem exists_read (d : Driver σ) (q : Statement) (s : σ) :
    ∃ events x, Records (d.read q) (d.recording.read q) s events ∧ IsTransaction .read q events x ∧
      Tells .graphQuery (x.bind Table.records) (d.read q s).1 := by
  obtain ⟨events, hrecords, htransaction⟩ := d.exists_isTransaction .read q s
  refine ⟨events, _, (hrecords.bind_ofExcept Table.records).orFail _, htransaction, ?_⟩
  rw [read, Effect.orFail_eq, Effect.bind_ofExcept_eq]
  exact tells_databaseFault _ _

/-- **Reads are one transaction each**, up to the first failure. -/
theorem exists_areReads (d : Driver σ) (qs : List Statement) (s : σ) :
    ∃ events, Records (qs.mapM d.read) (qs.mapM d.recording.read) s events ∧
      AreReads qs events (qs.mapM d.read s).1 := by
  induction qs generalizing s with
  | nil => exact ⟨[], Records.of_pure [] s, .done⟩
  | cons q qs ih =>
    obtain ⟨events, x, hrecords, htransaction, htells⟩ := d.exists_read q s
    rw [List.mapM_cons, List.mapM_cons]
    rcases hread : d.read q s with ⟨e | records, t⟩
    · refine ⟨events, hrecords.bind_of_error hread, ?_⟩
      rw [Effect.bind_of_error hread]
      rw [hread] at htells
      exact .failed htransaction htells
    · obtain ⟨more, hmore, hrest⟩ := ih t
      rw [hread] at htells
      -- records are told only if the transaction came to a table
      obtain ⟨table, rfl, htable⟩ := bind_eq_ok.mp htells.eq_ok
      refine ⟨events ++ more, hrecords.bind_of_ok hread ?_, ?_⟩
      · simp only [bind_pure_comp]
        exact hmore.map _
      · rw [Effect.bind_of_ok hread]
        simp only [bind_pure_comp]
        rw [Effect.map_eq]
        exact .next htransaction htable hrest

end Driver

end Cypher

end CodeAtlas
