import CodeAtlas.Proofs.Program.Ends

/-!
# What is said during a run

A run is a sequence of exchanges, each a request and the reply to it. What a program does before a
failure, and what it leaves out after one, can be read off them. As with writes, the exchanges are put
down beside the state, and a program is worked through in states that have this list.
-/

namespace CodeAtlas

/-- A request and the reply to it. -/
structure Exchange where
  request : Request
  reply : Except Fault request.Reply

variable {γ σ : Type}

/-- Every exchange is put down. -/
def Answering.logged (answers : Answering γ) : Answering (γ × List Exchange) :=
  fun r g x h ↦ answers r g.1 x h.1 ∧ h.2 = g.2 ++ [⟨r, x⟩]

namespace Program

variable {α β : Type} {answers : Answering γ} {respond : Responder σ}

/-- A request may get any of its answers. -/
theorem ends_request {r : Request} {Q : Except Fault r.Reply → γ → Prop} {g : γ} :
    (request r).Ends answers Q g ↔ ∀ x g', answers r g x g' → Q x g' := by
  refine forall₃_congr fun x g' _ ↦ ?_
  cases x <;> exact Iff.rfl

/-- The exchanges of a run, in order. -/
def exchanges (respond : Responder σ) : Program α → σ → List Exchange
  | done _, _ => []
  | fail _, _ => []
  | ask r k, s => ⟨r, (respond r s).1⟩ :: (k (respond r s).1).exchanges respond (respond r s).2

/-- **Runs end as programs do**, with the exchanges of the run put down. -/
theorem Ends.run_logged {p : Program α} {Q : Except Fault α → γ × List Exchange → Prop}
    (rep : σ → γ → Prop) {s : σ} {g : γ} {log : List Exchange}
    (h : p.Ends answers.logged Q (g, log)) (hrep : rep s g)
    (hsim : ∀ r s g, rep s g →
      ∃ g', rep (respond r s).2 g' ∧ answers r g (respond r s).1 g') :
    ∃ g', rep (p.run respond s).2 g' ∧
      Q (p.run respond s).1 (g', log ++ p.exchanges respond s) := by
  induction p generalizing s g log with
  | done a => exact ⟨g, hrep, (List.append_nil log).symm ▸ h⟩
  | fail e => exact ⟨g, hrep, (List.append_nil log).symm ▸ h⟩
  | ask r k ih =>
    obtain ⟨g', hrep', hanswer⟩ := hsim r s g hrep
    obtain ⟨k, hk, hQ⟩ := ih _ (h _ (g', log ++ [⟨r, (respond r s).1⟩]) ⟨hanswer, rfl⟩) hrep'
    refine ⟨k, hk, ?_⟩
    rw [List.append_assoc] at hQ
    exact hQ

/-! ## Runs of programs that are put together -/

theorem run_bind (respond : Responder σ) (p : Program α) (f : α → Program β) (s : σ) :
    (p >>= f).run respond s = match p.run respond s with
      | (.ok a, s) => (f a).run respond s
      | (.error e, s) => (.error e, s) := by
  induction p generalizing s with
  | done a => rfl
  | fail e => rfl
  | ask r k ih => exact ih _ _

theorem run_map (respond : Responder σ) (f : α → β) (p : Program α) (s : σ) :
    (f <$> p).run respond s = ((p.run respond s).1.map f, (p.run respond s).2) := by
  induction p generalizing s with
  | done a => rfl
  | fail e => rfl
  | ask r k ih => exact ih _ _

/-- The second program is run if the first one comes to a result. -/
theorem run_bind_eq_ok {p : Program α} {f : α → Program β} {b : β} {s t : σ} :
    (p >>= f).run respond s = (.ok b, t) ↔
      ∃ a u, p.run respond s = (.ok a, u) ∧ (f a).run respond u = (.ok b, t) := by
  rw [run_bind]
  rcases p.run respond s with ⟨e | a, u⟩
  · simp
  · refine ⟨fun h ↦ ⟨a, u, rfl, h⟩, ?_⟩
    rintro ⟨_, _, heq, h⟩
    obtain ⟨ha, rfl⟩ := Prod.mk.inj heq
    exact Except.ok.inj ha ▸ h

theorem run_request (respond : Responder σ) (r : Request) (s : σ) :
    (request r).run respond s = respond r s := by
  obtain ⟨x, s', hx⟩ : ∃ x s', respond r s = (x, s') := ⟨_, _, rfl⟩
  have hrun : (request r).run respond s = match respond r s with
      | (.ok a, s) => (.ok a, s)
      | (.error e, s) => (.error e, s) := by
    rw [request, run, hx]
    cases x <;> rfl
  rw [hrun, hx]
  cases x <;> rfl

theorem run_attempt (respond : Responder σ) (p : Program α) (s : σ) :
    p.attempt.run respond s = (.ok (p.run respond s).1, (p.run respond s).2) := by
  induction p generalizing s with
  | done a => rfl
  | fail e => rfl
  | ask r k ih => exact ih _ _

end Program

end CodeAtlas
