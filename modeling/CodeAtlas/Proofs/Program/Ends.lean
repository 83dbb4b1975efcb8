import CodeAtlas.Program

/-!
# How a program ends

A program is a course of action before anyone answers, so what it does can be said before it is run:
`p.Ends answers Q g` holds if `p`, started in the state `g`, ends with an outcome and in a state
that satisfy `Q`, whichever of the permitted answers it gets. The predicate follows the program, and
each way of putting programs together has an equation that takes it apart again; a program is worked
through by rewriting with these equations.

A run against something that answers is then a matter of comparing the two: if every answer of the
responder is a permitted one, the run ends as `Q` says. The states need not be the same. A responder
may have many parts of which `g` describes one, and `rep` says which.
-/

namespace CodeAtlas

/-- What answers requests, with states of type `σ`. -/
abbrev Responder (σ : Type) := (r : Request) → σ → Except Fault r.Reply × σ

/-- Which answers a request may get in a state, and which state they leave behind. -/
abbrev Answering (γ : Type) := (r : Request) → γ → Except Fault r.Reply → γ → Prop

/-- There is only one answer to the request. -/
def Answering.Only {γ : Type} (answers : Answering γ) (r : Request) (g : γ)
    (x : Except Fault r.Reply) (g' : γ) : Prop := ∀ y h, answers r g y h → y = x ∧ h = g'

namespace Program

variable {α β γ σ : Type} {answers : Answering γ} {respond : Responder σ}

/-- However its requests are answered, the program ends as `Q` says. -/
def Ends (answers : Answering γ) (Q : Except Fault α → γ → Prop) : Program α → γ → Prop
  | done a, g => Q (.ok a) g
  | fail e, g => Q (.error e) g
  | ask r k, g => ∀ x g', answers r g x g' → (k x).Ends answers Q g'

variable {Q R : Except Fault α → γ → Prop} {g g' : γ}

/-! ## Taking programs apart -/

@[simp] theorem ends_pure {a : α} : (pure a : Program α).Ends answers Q g ↔ Q (.ok a) g := Iff.rfl

theorem Ends.mono {p : Program α} (h : p.Ends answers Q g) (hQR : ∀ x g, Q x g → R x g) :
    p.Ends answers R g := by
  induction p generalizing g with
  | done a => exact hQR _ _ h
  | fail e => exact hQR _ _ h
  | ask r k ih => exact fun x g' hx ↦ ih x (h x g' hx)

theorem ends_of_forall {p : Program α} (h : ∀ x g, Q x g) : p.Ends answers Q g := by
  induction p generalizing g with
  | done a => exact h _ _
  | fail e => exact h _ _
  | ask r k ih => exact fun x _ _ ↦ ih x

/-- The second program starts where the first one ends, unless the first one fails. -/
theorem ends_bind {p : Program α} {f : α → Program β} {Q : Except Fault β → γ → Prop} :
    (p >>= f).Ends answers Q g ↔ p.Ends answers (fun x g ↦ match x with
      | .ok a => (f a).Ends answers Q g
      | .error e => Q (.error e) g) g := by
  induction p generalizing g with
  | done a => exact Iff.rfl
  | fail e => exact Iff.rfl
  | ask r k ih => exact forall₃_congr fun x _ _ ↦ ih x

theorem ends_map {p : Program α} {f : α → β} {Q : Except Fault β → γ → Prop} :
    (f <$> p).Ends answers Q g ↔ p.Ends answers (fun x g ↦ Q (x.map f) g) g := by
  refine ends_bind.trans ⟨fun h ↦ h.mono ?_, fun h ↦ h.mono ?_⟩ <;>
  · rintro (e | a) g hx
    · exact hx
    · exact hx

theorem ends_attempt {p : Program α} {Q : Except Fault (Except Fault α) → γ → Prop} :
    p.attempt.Ends answers Q g ↔ p.Ends answers (fun x g ↦ Q (.ok x) g) g := by
  induction p generalizing g with
  | done a => exact Iff.rfl
  | fail e => exact Iff.rfl
  | ask r k ih => exact forall₃_congr fun x _ _ ↦ ih x

@[simp] theorem ends_ofExcept {x : Except Fault α} :
    (ofExcept x).Ends answers Q g ↔ Q x g := by
  cases x <;> exact Iff.rfl

/-! ## Programs that end in one way

Most programs get answers that are settled by the state, and then their outcome is settled as well.
-/

/-- There is only one way in which the program ends. -/
def Gives (answers : Answering γ) (p : Program α) (g : γ) (x : Except Fault α) (g' : γ) : Prop :=
  p.Ends answers (fun y h ↦ y = x ∧ h = g') g

variable {p : Program α} {a : α} {e : Fault} {x : Except Fault α} {y : Except Fault β} {h : γ}

theorem Gives.ends (hp : p.Gives answers g x g') (hQ : Q x g') : p.Ends answers Q g :=
  Ends.mono hp fun _ _ hx ↦ hx.1 ▸ hx.2 ▸ hQ

theorem gives_pure : (pure a : Program α).Gives answers g (.ok a) g := ⟨rfl, rfl⟩

theorem gives_ofExcept : (ofExcept x).Gives answers g x g := ends_ofExcept.mpr ⟨rfl, rfl⟩

theorem gives_request {r : Request} {x : Except Fault r.Reply} (hx : answers.Only r g x g') :
    (request r).Gives answers g x g' := by
  intro y h hy
  obtain ⟨rfl, rfl⟩ := hx y h hy
  cases y with
  | ok a => exact ⟨rfl, rfl⟩
  | error e => exact ⟨rfl, rfl⟩

theorem Gives.bind_ends {f : α → Program β} {Q : Except Fault β → γ → Prop}
    (hp : p.Gives answers g (.ok a) g') (hf : (f a).Ends answers Q g') :
    (p >>= f).Ends answers Q g :=
  ends_bind.mpr (hp.ends hf)

theorem Gives.bind {f : α → Program β} (hp : p.Gives answers g (.ok a) g')
    (hf : (f a).Gives answers g' y h) : (p >>= f).Gives answers g y h :=
  hp.bind_ends hf

theorem Gives.map {f : α → β} (hp : p.Gives answers g x g') :
    (f <$> p).Gives answers g (x.map f) g' :=
  ends_map.mpr (hp.ends ⟨rfl, rfl⟩)

theorem Gives.attempt (hp : p.Gives answers g x g') : p.attempt.Gives answers g (.ok x) g' :=
  ends_attempt.mpr (hp.ends ⟨rfl, rfl⟩)

/-! ## Runs -/

/-- The requests that a run makes, in order. -/
def trace (respond : Responder σ) : Program α → σ → List Request
  | done _, _ => []
  | fail _, _ => []
  | ask r k, s => r :: (k (respond r s).1).trace respond (respond r s).2

/-- **Runs end as programs do**, if every request that is made is answered as permitted. -/
theorem Ends.run {p : Program α} (rep : σ → γ → Prop) {s : σ} (h : p.Ends answers Q g)
    (hrep : rep s g)
    (hsim : ∀ r ∈ p.trace respond s, ∀ s g, rep s g →
      ∃ g', rep (respond r s).2 g' ∧ answers r g (respond r s).1 g') :
    ∃ g', rep (p.run respond s).2 g' ∧ Q (p.run respond s).1 g' := by
  induction p generalizing s g with
  | done a => exact ⟨g, hrep, h⟩
  | fail e => exact ⟨g, hrep, h⟩
  | ask r k ih =>
    obtain ⟨g', hrep', hanswer⟩ := hsim r List.mem_cons_self s g hrep
    exact ih _ (h _ g' hanswer) hrep' fun q hq ↦ hsim q (List.mem_cons_of_mem _ hq)

/-! ## One program after another -/

/-- Runs programs in order, each from where the one before it ended; a failure stops only the
program that fails. -/
def runAll (respond : Responder σ) : List (Program α) → σ → List (Except Fault α) × σ
  | [], s => ([], s)
  | p :: ps, s =>
    let (x, s) := p.run respond s
    let (xs, s) := runAll respond ps s
    (x :: xs, s)

def traceAll (respond : Responder σ) : List (Program α) → σ → List Request
  | [], _ => []
  | p :: ps, s => p.trace respond s ++ traceAll respond ps (p.run respond s).2

@[simp] theorem runAll_nil {s : σ} :
    runAll respond ([] : List (Program α)) s = ([], s) := rfl

end Program

end CodeAtlas
