import CodeAtlas.Proofs.Program.Ends

/-!
# Programs that take turns

Several programs may run at a time. Whoever answers them takes one request after the other, and
whose request is next is up to chance. Every course of events of this sort is an interleaving, and
running the programs one after another is one of them.

What the others ask changes what a program gets to see, so nothing follows from the programs alone.
It takes an agreement about who asks what: `Asks` says which requests a program can make, given what
is known of the replies, whatever state they come from.
-/

namespace CodeAtlas

namespace Program

variable {α β σ : Type}

/-- The programs take turns from one state to another, make the requests in this order, and come to
the outcomes. -/
inductive Interleaves (respond : Responder σ) :
    List (Program α) → σ → List Request → List (Except Fault α) → σ → Prop
  | ended (xs : List (Except Fault α)) (s : σ) : Interleaves respond (xs.map ofExcept) s [] xs s
  | turn (before after : List (Program α)) {r : Request} {k : Except Fault r.Reply → Program α}
      {s t : σ} {rs : List Request} {xs : List (Except Fault α)} :
      Interleaves respond (before ++ k (respond r s).1 :: after) (respond r s).2 rs xs t →
      Interleaves respond (before ++ ask r k :: after) s (r :: rs) xs t

/-- Programs that run one after another take turns. -/
theorem interleaves_runAll (respond : Responder σ) (ps : List (Program α)) (s : σ) :
    Interleaves respond ps s (traceAll respond ps s) (runAll respond ps s).1
      (runAll respond ps s).2 := by
  suffices h : ∀ ended : List (Except Fault α), Interleaves respond (ended.map ofExcept ++ ps) s
      (traceAll respond ps s) (ended ++ (runAll respond ps s).1) (runAll respond ps s).2 from h []
  induction ps generalizing s with
  | nil =>
    intro ended
    rw [runAll_nil, List.append_nil, List.append_nil]
    exact Interleaves.ended ended s
  | cons p ps ih =>
    induction p generalizing s with
    | done a =>
      intro ended
      have h := ih s (ended ++ [.ok a])
      rw [List.map_append, List.append_assoc, List.append_assoc] at h
      exact h
    | fail e =>
      intro ended
      have h := ih s (ended ++ [.error e])
      rw [List.map_append, List.append_assoc, List.append_assoc] at h
      exact h
    | ask r k ihk => exact fun ended ↦ Interleaves.turn _ ps (ihk _ _ ended)

/-! ## What a program asks -/

/-- As long as the replies are as `R` says, the program makes requests that satisfy `P`, and its
result, if it comes to one, satisfies `Q`. -/
def Asks (P : Request → Prop) (R : (r : Request) → Except Fault r.Reply → Prop) (Q : α → Prop) :
    Program α → Prop
  | done a => Q a
  | fail _ => True
  | ask r k => P r ∧ ∀ x, R r x → (k x).Asks P R Q

variable {P : Request → Prop} {R : (r : Request) → Except Fault r.Reply → Prop} {Q : α → Prop}
  {Q' : β → Prop} {p : Program α}

theorem asks_pure {a : α} (ha : Q a) : (pure a : Program α).Asks P R Q := ha

theorem asks_fail {e : Fault} : (fail e : Program α).Asks P R Q := trivial

theorem asks_ofExcept {x : Except Fault α} (hx : ∀ a, x = .ok a → Q a) :
    (ofExcept x).Asks P R Q := by
  cases x with
  | ok a => exact hx a rfl
  | error e => trivial

theorem Asks.mono {S : α → Prop} (hp : p.Asks P R Q) (hQ : ∀ a, Q a → S a) :
    p.Asks P R S := by
  induction p with
  | done a => exact hQ a hp
  | fail e => trivial
  | ask r k ih => exact ⟨hp.1, fun x hx ↦ ih x (hp.2 x hx)⟩

/-- What is known of the requests is all the more known if less is said. -/
theorem Asks.mono_request {P' : Request → Prop} (hp : p.Asks P R Q) (hP : ∀ r, P r → P' r) :
    p.Asks P' R Q := by
  induction p with
  | done a => exact hp
  | fail e => trivial
  | ask r k ih => exact ⟨hP r hp.1, fun x hx ↦ ih x (hp.2 x hx)⟩

theorem Asks.bind {f : α → Program β} (hp : p.Asks P R Q) (hf : ∀ a, Q a → (f a).Asks P R Q') :
    (p >>= f).Asks P R Q' := by
  induction p with
  | done a => exact hf a hp
  | fail e => trivial
  | ask r k ih => exact ⟨hp.1, fun x hx ↦ ih x (hp.2 x hx)⟩

theorem Asks.map {f : α → β} (hp : p.Asks P R Q) (hf : ∀ a, Q a → Q' (f a)) :
    (f <$> p).Asks P R Q' :=
  hp.bind hf

theorem Asks.attempt (hp : p.Asks P R Q) : p.attempt.Asks P R fun x ↦ ∀ a, x = .ok a → Q a := by
  induction p with
  | done a =>
    rintro b hb
    obtain rfl := Except.ok.inj hb
    exact hp
  | fail e => exact fun a ha ↦ absurd ha (by simp)
  | ask r k ih => exact ⟨hp.1, fun x hx ↦ ih x (hp.2 x hx)⟩

theorem asks_request {r : Request} (hr : P r) : (request r).Asks P R fun a ↦ R r (.ok a) :=
  ⟨hr, fun x hx ↦ by cases x with
    | ok a => exact hx
    | error e => trivial⟩

end Program

end CodeAtlas
