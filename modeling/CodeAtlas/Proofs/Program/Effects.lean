import CodeAtlas.Effect

/-!
# Running effects

What an effect does in a state is settled by what its steps do, one after the other. These are the
equations by which a run is taken apart: given the outcome of the first step and the state behind it,
the run goes on from there or ends.
-/

namespace CodeAtlas.Effect

variable {σ α β : Type} {x : Effect σ α} {f : α → Effect σ β} {s t : σ} {a : α} {e : Fault}

/-! ## One step after another -/

theorem bind_of_ok (h : x s = (.ok a, t)) : (x >>= f) s = f a t := by
  change ExceptT.bindCont f (x s).1 (x s).2 = _
  rw [h]
  rfl

theorem bind_of_error (h : x s = (.error e, t)) : (x >>= f) s = (.error e, t) := by
  change ExceptT.bindCont f (x s).1 (x s).2 = _
  rw [h]
  rfl

theorem map_eq (g : α → β) : (g <$> x) s = ((x s).1.map g, (x s).2) := by
  cases h : (x s).1 with
  | ok a => exact bind_of_ok (f := fun a ↦ pure (g a)) (Prod.ext h rfl)
  | error e => exact bind_of_error (f := fun a ↦ pure (g a)) (Prod.ext h rfl)

@[simp] theorem pure_eq : (pure a : Effect σ α) s = (.ok a, s) := rfl

@[simp] theorem throw_eq : (throw e : Effect σ α) s = (.error e, s) := rfl

@[simp] theorem ofExcept_eq (y : Except Fault α) : (ofExcept y : Effect σ α) s = (y, s) := by
  cases y <;> rfl

theorem ofExcept_ok_bind : (ofExcept (.ok a) >>= f) = f a := rfl

theorem ofExcept_error_bind : (ofExcept (.error e) >>= f) = throw e := rfl

theorem ofExcept_map_bind {γ : Type} (y : Except Fault γ) (g : γ → α) :
    (ofExcept (y.map g) >>= f) = ofExcept y >>= fun c ↦ f (g c) := by
  cases y with
  | ok c => rfl
  | error e => rfl

theorem bind_ofExcept_eq (g : α → Except Fault β) :
    (x >>= fun a ↦ ofExcept (g a)) s = ((x s).1.bind g, (x s).2) := by
  cases h : (x s).1 with
  | ok a =>
    rw [bind_of_ok (Prod.ext h rfl), ofExcept_eq]
    rfl
  | error e => exact bind_of_error (Prod.ext h rfl)

/-! ## Failures -/

theorem attempt_eq : x.attempt s = (.ok (x s).1, (x s).2) := rfl

theorem orFail_eq (change : Fault → Fault) :
    x.orFail change s = ((x s).1.mapError change, (x s).2) := by
  rw [orFail, bind_of_ok attempt_eq]
  cases h : (x s).1 with
  | ok a => rfl
  | error e => rfl

end CodeAtlas.Effect
