import CodeAtlas.Proofs.Program.Exchanges
import CodeAtlas.Proofs.Program.Interleaving

/-!
# Programs that come to a point

A program that has made some of its requests goes on as a smaller program. If the run of the one is,
from there, the run of the other, the program *reaches* the other one. So a long program is followed
from point to point, and what is known of the last point is known of the whole: its outcome, and the
requests that are still made.
-/

namespace CodeAtlas

namespace Program

variable {α β σ : Type} {respond : Responder σ}

/-! ## The requests of a run -/

theorem trace_bind (respond : Responder σ) (p : Program α) (f : α → Program β) (s : σ) :
    (p >>= f).trace respond s = p.trace respond s ++ match p.run respond s with
      | (.ok a, t) => (f a).trace respond t
      | (.error _, _) => [] := by
  induction p generalizing s with
  | done a => rfl
  | fail e => rfl
  | ask r k ih => exact congrArg (r :: ·) (ih _ _)

theorem trace_map (respond : Responder σ) (f : α → β) (p : Program α) (s : σ) :
    (f <$> p).trace respond s = p.trace respond s := by
  induction p generalizing s with
  | done a => rfl
  | fail e => rfl
  | ask r k ih => exact congrArg (r :: ·) (ih _ _)

theorem trace_attempt (respond : Responder σ) (p : Program α) (s : σ) :
    p.attempt.trace respond s = p.trace respond s := by
  induction p generalizing s with
  | done a => rfl
  | fail e => rfl
  | ask r k ih => exact congrArg (r :: ·) (ih _ _)

/-- A program makes such requests only as it is known to ask. -/
theorem Asks.of_mem_trace {P : Request → Prop} {Q : α → Prop} {p : Program α}
    (hp : p.Asks P (fun _ _ ↦ True) Q) {s : σ} {r : Request} (hr : r ∈ p.trace respond s) :
    P r := by
  induction p generalizing s with
  | done a => exact absurd hr List.not_mem_nil
  | fail e => exact absurd hr List.not_mem_nil
  | ask q k ih =>
    rcases List.mem_cons.mp hr with rfl | hr
    · exact hp.1
    · exact ih _ (hp.2 _ trivial) hr

/-! ## Points of a run -/

/-- The program makes these requests and then goes on as the other one does, from another state. -/
structure Reaches (respond : Responder σ) (p : Program α) (s : σ) (asked : List Request)
    (q : Program α) (t : σ) : Prop where
  run : p.run respond s = q.run respond t
  trace : p.trace respond s = asked ++ q.trace respond t

variable {p q r : Program α} {s t u : σ} {asked more : List Request}

theorem Reaches.trans (hpq : p.Reaches respond s asked q t) (hqr : q.Reaches respond t more r u) :
    p.Reaches respond s (asked ++ more) r u :=
  ⟨hpq.run.trans hqr.run, by rw [hpq.trace, hqr.trace, List.append_assoc]⟩

theorem Reaches.bind (h : p.Reaches respond s asked q t) (f : α → Program β) :
    (p >>= f).Reaches respond s asked (q >>= f) t := by
  constructor
  · rw [run_bind, run_bind, h.run]
  · rw [trace_bind, trace_bind, h.run, h.trace, List.append_assoc]

theorem Reaches.attempt (h : p.Reaches respond s asked q t) :
    p.attempt.Reaches respond s asked q.attempt t := by
  constructor
  · rw [run_attempt, run_attempt, h.run]
  · rw [trace_attempt, trace_attempt, h.trace]

/-- A request is made, and its reply is there. -/
theorem reaches_request {r : Request} {x : Except Fault r.Reply} (h : respond r s = (x, t)) :
    (request r).Reaches respond s [r] (ofExcept x) t := by
  constructor
  · rw [run_request, h]
    cases x <;> rfl
  · have htrace : (request r).trace respond s = [r] := by
      rw [request, trace, h]
      cases x <;> rfl
    rw [htrace]
    cases x <;> rfl

end Program

end CodeAtlas
