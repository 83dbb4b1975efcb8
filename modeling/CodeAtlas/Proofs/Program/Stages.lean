import CodeAtlas.Proofs.Program.Interleaving

/-!
# Programs that go through stages

What a program may ask depends on how far it has come. `Program.Follows` says how far that is: the
program is at a stage, each of its requests is a step that the stage permits, and the reply decides
which stage comes next. No state occurs in this, unlike in `Program.Ends`. So it stays true of a
program while others change the state between two of its requests.

For a run of several programs that take turns it is therefore enough to look at one step: what every
step of every program preserves holds in the end. This is `Interleaves.exists_stages`.
-/

namespace CodeAtlas

namespace Program

variable {α β γ κ σ : Type} {R : (r : Request) → Except Fault r.Reply → Prop}
  {step : κ → (r : Request) → Except Fault r.Reply → κ → Prop} {c : κ}

/-- As long as the replies are as `R` says, the requests are steps from the stage that the program
is at, and it ends with an outcome and at a stage that satisfy `Q`. -/
def Follows (R : (r : Request) → Except Fault r.Reply → Prop)
    (step : κ → (r : Request) → Except Fault r.Reply → κ → Prop) (Q : Except Fault α → κ → Prop) :
    Program α → κ → Prop
  | done a, c => Q (.ok a) c
  | fail e, c => Q (.error e) c
  | ask r k, c => ∀ x, R r x → ∃ c', step c r x c' ∧ (k x).Follows R step Q c'

/-- The program follows the steps and does not fail. -/
abbrev Passes (R : (r : Request) → Except Fault r.Reply → Prop)
    (step : κ → (r : Request) → Except Fault r.Reply → κ → Prop) (S : α → κ → Prop)
    (p : Program α) (c : κ) : Prop :=
  p.Follows R step (fun x c ↦ ∃ a, x = .ok a ∧ S a c) c

variable {Q : Except Fault α → κ → Prop} {Q' : Except Fault β → κ → Prop} {S : α → κ → Prop}
  {p : Program α}

theorem Follows.bind {f : α → Program β} (hp : p.Follows R step Q c)
    (hf : ∀ a c, Q (.ok a) c → (f a).Follows R step Q' c)
    (he : ∀ e c, Q (.error e) c → Q' (.error e) c) : (p >>= f).Follows R step Q' c := by
  induction p generalizing c with
  | done a => exact hf a c hp
  | fail e => exact he e c hp
  | ask r k ih =>
    intro x hx
    obtain ⟨c', hstep, hk⟩ := hp x hx
    exact ⟨c', hstep, ih x hk⟩

theorem Follows.attempt (hp : p.Follows R step Q c) :
    p.attempt.Passes R step (fun x c ↦ Q x c) c := by
  induction p generalizing c with
  | done a => exact ⟨_, rfl, hp⟩
  | fail e => exact ⟨_, rfl, hp⟩
  | ask r k ih =>
    intro x hx
    obtain ⟨c', hstep, hk⟩ := hp x hx
    exact ⟨c', hstep, ih x hk⟩

theorem Passes.bind {f : α → Program β} (hp : p.Passes R step S c)
    (hf : ∀ a c, S a c → (f a).Follows R step Q' c) : (p >>= f).Follows R step Q' c := by
  refine Follows.bind hp ?_ ?_
  · rintro a c ⟨b, hb, hS⟩
    obtain rfl := Except.ok.inj hb
    exact hf a c hS
  · rintro e c ⟨b, hb, -⟩
    exact absurd hb (by simp)

theorem passes_pure {a : α} (ha : S a c) : (pure a : Program α).Passes R step S c := ⟨a, rfl, ha⟩

theorem passes_request {r : Request} {S : r.Reply → κ → Prop}
    (h : ∀ x, R r x → ∃ a, x = .ok a ∧ ∃ c', step c r x c' ∧ S a c') :
    (request r).Passes R step S c := by
  intro x hx
  obtain ⟨a, rfl, c', hstep, hS⟩ := h x hx
  exact ⟨c', hstep, a, rfl, hS⟩

/-- Requests that may be made at a stage and do not lead away from it. -/
theorem Asks.follows {P : Request → Prop} {R' : (r : Request) → Except Fault r.Reply → Prop}
    {S : α → Prop} (hp : p.Asks P R' S) (hreply : ∀ r x, R r x → R' r x)
    (hstep : ∀ r x, P r → R r x → step c r x c) :
    p.Follows R step (fun _ c' ↦ c' = c) c := by
  induction p with
  | done a => exact rfl
  | fail e => exact rfl
  | ask r k ih => exact fun x hx ↦ ⟨c, hstep r x hp.1 hx, ih x (hp.2 x (hreply r x hx))⟩

/-! ## Runs -/

/-- **What every step preserves holds after a run** of programs that take turns. A lane is a program
with what is known of it and with the stage that it is at. -/
theorem Interleaves.exists_stages {ι : Type} {respond : Responder σ} (answers : Answering γ)
    (rep : σ → γ → Prop) (step : ι → κ → (r : Request) → Except Fault r.Reply → κ → Prop)
    (Inv : List (ι × κ) → List Request → γ → Prop)
    (hreply : ∀ {ls past g r x h}, Inv ls past g → answers r g x h → R r x)
    (hstep : ∀ {before after i c c' past g r x h}, Inv (before ++ (i, c) :: after) past g →
      answers r g x h → step i c r x c' → Inv (before ++ (i, c') :: after) (past ++ [r]) h)
    (lanes : List (ι × Program α × κ)) {past rs : List Request} {s t : σ} {g : γ}
    {xs : List (Except Fault α)} (hrun : Interleaves respond (lanes.map (·.2.1)) s rs xs t)
    (hsim : ∀ r ∈ rs, ∀ s g, rep s g →
      ∃ h, rep (respond r s).2 h ∧ answers r g (respond r s).1 h)
    (hfollows : ∀ l ∈ lanes, l.2.1.Follows R (step l.1) Q l.2.2)
    (hrep : rep s g) (hinv : Inv (lanes.map fun l ↦ (l.1, l.2.2)) past g) :
    ∃ stages h, rep t h ∧ Inv stages (past ++ rs) h ∧ stages.map (·.1) = lanes.map (·.1) ∧
      ∀ l ∈ stages, ∃ x, Q x l.2 := by
  generalize hps : lanes.map (·.2.1) = ps at hrun
  induction hrun generalizing lanes past g with
  | ended xs s =>
    refine ⟨lanes.map fun l ↦ (l.1, l.2.2), g, hrep, (List.append_nil past).symm ▸ hinv,
      List.map_map, ?_⟩
    rw [List.forall_mem_map]
    intro l hl
    have hprogram : l.2.1 ∈ xs.map ofExcept := hps ▸ List.mem_map_of_mem hl
    obtain ⟨x, -, hx⟩ := List.mem_map.mp hprogram
    have hended := hfollows l hl
    rw [← hx] at hended
    cases x with
    | ok a => exact ⟨_, hended⟩
    | error e => exact ⟨_, hended⟩
  | @turn before after r k s t rs xs hrun ih =>
    obtain ⟨lanes₁, lanes₂, rfl, rfl, htail⟩ := List.map_eq_append_iff.mp hps
    obtain ⟨⟨i, p, c⟩, lanes₂, rfl, hp, rfl⟩ := List.map_eq_cons_iff.mp htail
    obtain rfl : p = .ask r k := hp
    rw [List.forall_mem_cons] at hsim
    rw [List.forall_mem_append, List.forall_mem_cons] at hfollows
    obtain ⟨hbefore, hlane, hafter⟩ := hfollows
    rw [List.map_append, List.map_cons] at hinv
    -- The lane whose turn it is takes a step, and the others stay where they are.
    obtain ⟨h, hrep', hanswer⟩ := hsim.1 s g hrep
    obtain ⟨c', hc', hk⟩ := hlane _ (hreply hinv hanswer)
    have hinv' := hstep hinv hanswer hc'
    obtain ⟨stages, g', hg', hstages, hnames, hended⟩ := ih
      (lanes₁ ++ (i, k (respond r s).1, c') :: lanes₂) hsim.2
      (List.forall_mem_append.mpr ⟨hbefore, List.forall_mem_cons.mpr ⟨hk, hafter⟩⟩)
      hrep' (by rw [List.map_append, List.map_cons]; exact hinv')
      (by rw [List.map_append, List.map_cons])
    refine ⟨stages, g', hg', ?_, ?_, hended⟩
    · rw [List.append_cons]
      exact hstages
    · rw [hnames, List.map_append, List.map_append, List.map_cons, List.map_cons]

end Program

end CodeAtlas
