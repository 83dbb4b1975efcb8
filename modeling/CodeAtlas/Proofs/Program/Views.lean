import CodeAtlas.Proofs.Program.Interleaving

/-!
# Views of a state

A state often has more parts than a proof wants to speak of. A *view* maps it to what is of interest,
and if the answers that are permitted on the whole are permitted on the view, then what is known of a
program there is known of it on the whole (`Ends.of_view`). What is known from several views can be
put together (`Ends.and`). And a view that none of the requests of a program changes is not changed
by the program (`Asks.ends_view`), nor by a run (`view_run`).
-/

namespace CodeAtlas.Program

variable {α γ δ : Type} {a : Answering γ} {b : Answering δ} {p : Program α}

theorem Ends.and {Q R : Except Fault α → γ → Prop} {g : γ} (hQ : p.Ends a Q g)
    (hR : p.Ends a R g) : p.Ends a (fun x h ↦ Q x h ∧ R x h) g := by
  induction p generalizing g with
  | done v => exact ⟨hQ, hR⟩
  | fail e => exact ⟨hQ, hR⟩
  | ask r k ih =>
    intro x h hx
    exact ih x (hQ x h hx) (hR x h hx)

theorem Ends.of_view (view : δ → γ) (hview : ∀ r g x h, b r g x h → a r (view g) x (view h))
    {Q : Except Fault α → γ → Prop} {g : δ} (hp : p.Ends a Q (view g)) :
    p.Ends b (fun x h ↦ Q x (view h)) g := by
  induction p generalizing g with
  | done v => exact hp
  | fail e => exact hp
  | ask r k ih =>
    intro x h hx
    exact ih x (hp x (view h) (hview r g x h hx))

theorem Asks.ends_view {P : Request → Prop} {S : α → Prop} (view : γ → δ)
    (hview : ∀ r g x h, P r → a r g x h → view h = view g)
    (hp : p.Asks P (fun _ _ ↦ True) S) (g : γ) : p.Ends a (fun _ h ↦ view h = view g) g := by
  induction p generalizing g with
  | done v => exact rfl
  | fail e => exact rfl
  | ask r k ih =>
    intro x h hx
    apply (ih x (hp.2 x trivial) h).mono
    intro _ k hk
    exact hk.trans (hview r g x h hp.1 hx)

theorem view_run {σ : Type} {respond : Responder σ} (view : σ → δ)
    (hview : ∀ r s, view (respond r s).2 = view s) (p : Program α) (s : σ) :
    view (p.run respond s).2 = view s := by
  induction p generalizing s with
  | done v => exact rfl
  | fail e => exact rfl
  | ask r k ih => exact (ih _ _).trans (hview r s)

end CodeAtlas.Program
