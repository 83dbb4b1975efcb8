import CodeAtlas.Proofs.Program.Interleaving

/-!
# Writes that are refused

A refusal is a write that fails as a write to the graph does and changes nothing. Which of the writes
of a run are refused is given by their numbers, in the order in which they are made.

What a program has written cannot be told from its outcome, since a write that is refused may be
passed over. So the writes are put down: `Program.writes` lists those that a run attempts, each with
whether it succeeded, and a program is worked through in states that have this list beside them.
-/

namespace CodeAtlas

def Request.isWrite : Request → Bool
  | mergeNode .. | mergeRelationship .. | deleteRelationship .. => true
  | _ => false

/-- The message and the cause of the failure of a write, for the writes that are refused. -/
abbrev Refusals := Nat → Option (String × Option Fault)

/-- A write that was attempted. -/
structure Write where
  request : Request
  succeeded : Bool

/-- What is put down when a request has been answered. -/
def Request.writes (r : Request) (x : Except Fault r.Reply) : List Write :=
  if r.isWrite then [⟨r, x.isOk⟩] else []

variable {γ σ : Type}

/-- Refuses the writes that are to be refused. The number is that of the next write. -/
def Responder.withRefusals (refusals : Refusals) (respond : Responder σ) : Responder (σ × Nat) :=
  fun r s ↦
    if r.isWrite then
      match refusals s.2 with
      | some f => (.error (.graphWrite f.1 f.2), (s.1, s.2 + 1))
      | none => ((respond r s.1).1, ((respond r s.1).2, s.2 + 1))
    else ((respond r s.1).1, ((respond r s.1).2, s.2))

/-- Any write may be refused, and all of them are put down. -/
def Answering.withRefusals (answers : Answering γ) : Answering (γ × List Write) :=
  fun r g x h ↦ h.2 = g.2 ++ r.writes x ∧
    (answers r g.1 x h.1 ∨ (r.isWrite ∧ ∃ m c, x = .error (.graphWrite m c)) ∧ h.1 = g.1)

namespace Program

variable {α : Type} {answers : Answering γ} {respond : Responder σ} {refusals : Refusals}

/-- The writes that a run attempts, in order. -/
def writes (respond : Responder σ) : Program α → σ → List Write
  | done _, _ => []
  | fail _, _ => []
  | ask r k, s =>
    r.writes (respond r s).1 ++ (k (respond r s).1).writes respond (respond r s).2

/-- The writes are the requests of the run that write. -/
theorem map_request_writes (respond : Responder σ) (p : Program α) (s : σ) :
    (p.writes respond s).map (·.request) = (p.trace respond s).filter (·.isWrite) := by
  induction p generalizing s with
  | done a => rfl
  | fail e => rfl
  | ask r k ih =>
    rw [writes, trace, List.map_append, ih, List.filter_cons, Request.writes]
    split
    · rfl
    · rfl

/-- A request is refused or answered. Whichever it is, this is permitted. -/
theorem exists_answer_withRefusals (rep : σ → γ → Prop) (refusals : Refusals) (n : Nat)
    (ws : List Write) {r : Request} {s : σ} {g : γ} (hrep : rep s g)
    (hsim : ∃ g', rep (respond r s).2 g' ∧ answers r g (respond r s).1 g') :
    ∃ g', rep (respond.withRefusals refusals r (s, n)).2.1 g' ∧
      answers.withRefusals r (g, ws) (respond.withRefusals refusals r (s, n)).1
        (g', ws ++ r.writes (respond.withRefusals refusals r (s, n)).1) := by
  obtain ⟨g', hrep', hanswer⟩ := hsim
  cases hwrite : r.isWrite with
  | false =>
    have hrespond : respond.withRefusals refusals r (s, n)
        = ((respond r s).1, ((respond r s).2, n)) := by
      rw [Responder.withRefusals, hwrite, if_neg Bool.false_ne_true]
    rw [hrespond]
    exact ⟨g', hrep', rfl, Or.inl hanswer⟩
  | true =>
    cases hrefusal : refusals n with
    | none =>
      have hrespond : respond.withRefusals refusals r (s, n)
          = ((respond r s).1, ((respond r s).2, n + 1)) := by
        simp only [Responder.withRefusals, hwrite, if_true, hrefusal]
      rw [hrespond]
      exact ⟨g', hrep', rfl, Or.inl hanswer⟩
    | some f =>
      have hrespond : respond.withRefusals refusals r (s, n)
          = (.error (.graphWrite f.1 f.2), (s, n + 1)) := by
        simp only [Responder.withRefusals, hwrite, if_true, hrefusal]
      rw [hrespond]
      exact ⟨g, hrep, rfl, Or.inr ⟨⟨hwrite, f.1, f.2, rfl⟩, rfl⟩⟩

/-- **Runs with refusals end as programs do**, with the writes of the run put down. -/
theorem Ends.run_withRefusals {p : Program α} {Q : Except Fault α → γ × List Write → Prop}
    (rep : σ → γ → Prop) {s : σ} {n : Nat} {g : γ} {ws : List Write}
    (h : p.Ends answers.withRefusals Q (g, ws)) (hrep : rep s g)
    (hsim : ∀ r ∈ p.trace (respond.withRefusals refusals) (s, n), ∀ s g, rep s g →
      ∃ g', rep (respond r s).2 g' ∧ answers r g (respond r s).1 g') :
    ∃ g', rep (p.run (respond.withRefusals refusals) (s, n)).2.1 g' ∧
      Q (p.run (respond.withRefusals refusals) (s, n)).1
        (g', ws ++ p.writes (respond.withRefusals refusals) (s, n)) := by
  induction p generalizing s n g ws with
  | done a => exact ⟨g, hrep, (List.append_nil ws).symm ▸ h⟩
  | fail e => exact ⟨g, hrep, (List.append_nil ws).symm ▸ h⟩
  | ask r k ih =>
    -- The rest of the run starts with one more write put down, or with none.
    obtain ⟨g', hrep', hanswer⟩ := exists_answer_withRefusals rep refusals n ws hrep
      (hsim r List.mem_cons_self s g hrep)
    obtain ⟨k, hk, hQ⟩ := ih _ (h _ _ hanswer) hrep' fun q hq ↦ hsim q (List.mem_cons_of_mem _ hq)
    refine ⟨k, hk, ?_⟩
    rw [List.append_assoc] at hQ
    exact hQ

/-! ## Programs that only read -/

/-- The program writes nothing. -/
abbrev IsQuiet (p : Program α) : Prop :=
  p.Asks (fun r ↦ r.isWrite = false) (fun _ _ ↦ True) fun _ ↦ True

theorem IsQuiet.bind {β : Type} {p : Program α} {f : α → Program β} (hp : p.IsQuiet)
    (hf : ∀ a, (f a).IsQuiet) : (p >>= f).IsQuiet := Asks.bind hp fun a _ ↦ hf a

theorem isQuiet_request {r : Request} (hr : r.isWrite = false) : (request r).IsQuiet :=
  (asks_request hr).mono fun _ _ ↦ trivial

theorem IsQuiet.attempt {p : Program α} (hp : p.IsQuiet) : p.attempt.IsQuiet :=
  (Asks.attempt hp).mono fun _ _ ↦ trivial

/-- A program that writes nothing ends as it does without refusals. -/
theorem Ends.withRefusals_of_isQuiet {p : Program α} {Q : Except Fault α → γ → Prop} {g : γ}
    (h : p.Ends answers Q g) (hquiet : p.IsQuiet) (ws : List Write) :
    p.Ends answers.withRefusals (fun x t ↦ Q x t.1 ∧ t.2 = ws) (g, ws) := by
  induction p generalizing g with
  | done a => exact ⟨h, rfl⟩
  | fail e => exact ⟨h, rfl⟩
  | ask r k ih =>
    rintro x ⟨g', ws'⟩ ⟨hws, hanswer⟩
    obtain ⟨hread, hquiet⟩ := hquiet
    rw [Request.writes, hread, if_neg Bool.false_ne_true, List.append_nil] at hws
    obtain rfl : ws' = ws := hws
    rcases hanswer with hanswer | ⟨⟨hwrite, -⟩, -⟩
    · exact ih x (h x g' hanswer) (hquiet x trivial)
    · exact Bool.noConfusion (hread.symm.trans hwrite)

end Program

end CodeAtlas
