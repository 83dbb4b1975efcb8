import CodeAtlas.Fault
import CodeAtlas.Program

/-!
# Effects on a service

A step that uses a service outside this library changes the state of that service and may fail. A
failure does not undo what was done before it.
-/

namespace CodeAtlas

/-- A step that may fail, on a service with states of type `σ`. -/
abbrev Effect (σ : Type) := ExceptT Fault (StateM σ)

namespace Effect

variable {σ α : Type}

/-- The outcome of a step as a value. -/
def attempt (step : Effect σ α) : Effect σ (Except Fault α) :=
  fun s ↦ let (r, s) := step s; (.ok r, s)

/-- Changes the failure of a step. -/
def orFail (step : Effect σ α) (change : Fault → Fault) : Effect σ α := do
  match ← attempt step with
  | .ok a => pure a
  | .error e => throw (change e)

end Effect

end CodeAtlas
