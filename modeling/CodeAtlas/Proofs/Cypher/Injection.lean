import CodeAtlas.Proofs.Cypher.Names
import CodeAtlas.Rehearsal.Database

/-!
# What gets into a statement

Either every name of a call is an identifier, and the database is sent the templates with these names
in their places, or the call is refused before a session is opened: a call of which this is true is
*guarded*. It is true of all calls but those in which every name is accepted and one of them has a
line feed behind it. Such a name is no identifier, and it is sent.
-/

namespace CodeAtlas.Cypher

variable {σ α : Type}

/-! ## What is sent -/

/-- The statements that are sent, in order. -/
def statementsOf (events : List Event) : List Statement := events.filterMap Event.statement?

theorem IsTransaction.sends {mode : Mode} {q : Statement} {events : List Event}
    {x : Except Fault Table} (h : IsTransaction mode q events x) :
    events ≠ [] ∧ ∀ p ∈ statementsOf events, p = q := by
  cases h with
  | unopened e => exact ⟨List.cons_ne_nil _ _, fun p hp ↦ absurd hp List.not_mem_nil⟩
  | executed x => exact ⟨List.cons_ne_nil _ _, fun p hp ↦ List.mem_singleton.mp hp⟩

theorem IsWrite.sends {q : Statement} {value : Table → α} {events : List Event} {y : Except Fault α}
    (h : IsWrite q value events y) : events ≠ [] ∧ ∀ p ∈ statementsOf events, p = q := by
  cases h with
  | once h hx hy => exact h.sends
  | twice h hx hmore hy =>
    refine ⟨List.append_ne_nil_of_left_ne_nil h.sends.1 _, fun p hp ↦ ?_⟩
    rw [statementsOf, List.filterMap_append, List.mem_append] at hp
    exact hp.elim (h.sends.2 p) (hmore.sends.2 p)

theorem AreReads.sends {qs : List Statement} {events : List Event}
    {y : Except Fault (List (List Record))} (h : AreReads qs events y) :
    (qs ≠ [] → events ≠ []) ∧ ∀ p ∈ statementsOf events, p ∈ qs := by
  induction h with
  | done => exact ⟨fun h ↦ absurd rfl h, fun p hp ↦ hp⟩
  | failed h he =>
    exact ⟨fun _ ↦ h.sends.1, fun p hp ↦ List.mem_cons.mpr (Or.inl (h.sends.2 p hp))⟩
  | next h ht hrest ih =>
    refine ⟨fun _ ↦ List.append_ne_nil_of_left_ne_nil h.sends.1 _, fun p hp ↦ ?_⟩
    rw [statementsOf, List.filterMap_append, List.mem_append] at hp
    exact List.mem_cons.mpr (hp.imp (h.sends.2 p) (ih.2 p))

/-! ## Calls and their names -/

inductive Call where
  | write (c : WriteCall)
  | read (c : ReadCall)

namespace Call

def Reply : Call → Type
  | write c => c.Reply
  | read c => c.Reply

def run (d : Driver σ) : (c : Call) → Effect σ c.Reply
  | write c => c.run d
  | read c => c.run d

def names : Call → List String
  | write c => c.names
  | read c => c.names

def templates : Call → List Statement
  | write c => [c.template]
  | read c => c.templates

/-- What the database is asked for during the call. -/
def asked (c : Call) (d : Driver σ) (s : σ) : List Event := (c.run d.recording (s, [])).2.2

variable (c : Call) (d : Driver σ) (s : σ)

theorem templates_ne_nil : c.templates ≠ [] := by
  cases c with
  | write c => exact List.cons_ne_nil _ _
  | read c => cases c <;> exact List.cons_ne_nil _ _

variable {c d s} in
theorem asked_eq {events : List Event} (h : Records (c.run d) (c.run d.recording) s events) :
    c.asked d s = events := by
  rw [asked, h, List.nil_append]

/-- **Accepted names are sent**, as parts of the templates. -/
theorem sends_of_accepted (h : ∀ name ∈ c.names, IsAccepted name) :
    c.asked d s ≠ [] ∧ ∀ q ∈ statementsOf (c.asked d s), q ∈ c.templates := by
  cases c with
  | write c =>
    obtain ⟨events, hrecords, htakes⟩ := c.exists_takes d s
    rw [WriteCall.Takes, c.statement_eq] at htakes
    have hsends := (htakes.of_accepted h).sends
    rw [asked_eq (c := .write c) hrecords]
    exact ⟨hsends.1, fun q hq ↦ List.mem_singleton.mpr (hsends.2 q hq)⟩
  | read c =>
    obtain ⟨events, hrecords, htakes⟩ := c.exists_takes d s
    rw [ReadCall.Takes, c.statements_eq] at htakes
    obtain ⟨y, hreads, -⟩ := htakes.of_accepted h
    rw [asked_eq (c := .read c) hrecords]
    exact ⟨hreads.sends.1 (templates_ne_nil (.read c)), hreads.sends.2⟩

/-- **A name that is not accepted stops the call** before a session is opened. -/
theorem refuses_of_not_accepted (h : ¬ ∀ name ∈ c.names, IsAccepted name) :
    c.asked d s = [] ∧ ∃ name ∈ c.names, (c.run d s).1 = .error (.invalidIdentifier name) := by
  cases c with
  | write c =>
    obtain ⟨events, hrecords, htakes⟩ := c.exists_takes d s
    rw [WriteCall.Takes, c.statement_eq] at htakes
    rw [asked_eq (c := .write c) hrecords]
    exact htakes.of_not_accepted h
  | read c =>
    obtain ⟨events, hrecords, htakes⟩ := c.exists_takes d s
    rw [ReadCall.Takes, c.statements_eq] at htakes
    rw [asked_eq (c := .read c) hrecords]
    exact htakes.of_not_accepted h

/-- Either every name is an identifier and the database is sent nothing but the templates, or the
call is refused and the database is not asked at all. -/
def Guarded : Prop :=
  ((∀ name ∈ c.names, IsIdentifier name) ∧ c.asked d s ≠ [] ∧
    ∀ q ∈ statementsOf (c.asked d s), q ∈ c.templates) ∨
  c.asked d s = [] ∧ ∃ name ∈ c.names, (c.run d s).1 = .error (.invalidIdentifier name)

/-- **The calls that are guarded.** A name with a line feed behind it is kept out only by another
name that is not accepted. -/
theorem guarded_iff : c.Guarded d s ↔ ∀ name ∈ c.names, IsIdentifierLine name →
    ∃ other ∈ c.names, ¬ IsIdentifier other ∧ ¬ IsIdentifierLine other := by
  have hrefuses : (∃ other ∈ c.names, ¬ IsIdentifier other ∧ ¬ IsIdentifierLine other) ↔
      ¬ ∀ name ∈ c.names, IsAccepted name := by
    simp only [isAccepted_iff, not_forall, not_or, exists_prop]
  rw [hrefuses]
  constructor
  · rintro (⟨hnames, -⟩ | ⟨hasked, -⟩) name hname hline
    · exact absurd (hnames name hname) hline.not_isIdentifier
    · exact fun haccepted ↦ (c.sends_of_accepted d s haccepted).1 hasked
  · intro h
    by_cases haccepted : ∀ name ∈ c.names, IsAccepted name
    · refine Or.inl ⟨fun name hname ↦ ?_, c.sends_of_accepted d s haccepted⟩
      apply ((isAccepted_iff name).mp (haccepted name hname)).resolve_right
      exact fun hline ↦ h name hname hline haccepted
    · exact Or.inr (c.refuses_of_not_accepted d s haccepted)

/-- A label with a line feed behind it is sent. -/
theorem not_forall_guarded :
    ¬ ∀ c : Call, c.Guarded ScriptedDatabase.driver (ScriptedDatabase.new []) := by
  intro h
  have haccepted : ∀ name ∈ names (.write (.mergeNode "File\n" [("path", .text "/a")])),
      IsAccepted name := by decide
  rcases h (.write (.mergeNode "File\n" [("path", .text "/a")])) with ⟨hnames, -⟩ | ⟨hasked, -⟩
  · have hparts := (isIdentifier_cons_iff 'F' ['i', 'l', 'e'] (by decide)).mp rfl
    have hline : IsIdentifierLine "File\n" := ⟨"File", ⟨'F', ['i', 'l', 'e'], rfl, hparts⟩, rfl⟩
    exact hline.not_isIdentifier (hnames "File\n" List.mem_cons_self)
  · exact (sends_of_accepted _ _ _ haccepted).1 hasked

end Call

end CodeAtlas.Cypher
