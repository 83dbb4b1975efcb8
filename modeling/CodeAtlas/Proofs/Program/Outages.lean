import CodeAtlas.Proofs.Program.Ends

/-!
# Lookups that fail

An outage is a lookup of relationships that fails as a graph query does. Which of the lookups of a
run fail is given by their numbers, in the order in which they are made, so a pattern of outages can
be laid over anything that answers: it keeps count, refuses the lookups that are to fail, and passes
everything else on.
-/

namespace CodeAtlas

/-- The message and the cause of the failure of a lookup, for the lookups that fail. -/
abbrev Outages := Nat → Option (String × Option Fault)

namespace Outages

def none : Outages := fun _ ↦ Option.none

end Outages

def Request.isLookup : Request → Bool
  | findRelationships .. => true
  | _ => false

variable {γ σ : Type}

/-- Refuses the lookups that are to fail. The number is that of the next lookup. -/
def Responder.withOutages (outages : Outages) (respond : Responder σ) : Responder (σ × Nat) :=
  fun r s ↦
    if r.isLookup then
      match outages s.2 with
      | some f => (.error (.graphQuery f.1 f.2), (s.1, s.2 + 1))
      | none => ((respond r s.1).1, ((respond r s.1).2, s.2 + 1))
    else ((respond r s.1).1, ((respond r s.1).2, s.2))

def Answering.withOutages (outages : Outages) (answers : Answering γ) : Answering (γ × Nat) :=
  fun r g x h ↦
    if r.isLookup then
      match outages g.2 with
      | some f => x = .error (.graphQuery f.1 f.2) ∧ h = (g.1, g.2 + 1)
      | none => answers r g.1 x h.1 ∧ h.2 = g.2 + 1
    else answers r g.1 x h.1 ∧ h.2 = g.2

namespace Answering

variable {answers : Answering γ} {outages : Outages} {r : Request} {g h : γ}
  {x : Except Fault r.Reply} {n : Nat}

theorem Only.of_not_lookup (hr : r.isLookup = false) (hx : answers.Only r g x h) :
    (answers.withOutages outages).Only r (g, n) x (h, n) := by
  rintro y ⟨k, m⟩ hy
  simp only [withOutages, hr, Bool.false_eq_true, if_false] at hy
  obtain ⟨rfl, rfl⟩ := hx y k hy.1
  exact ⟨rfl, Prod.ext rfl hy.2⟩

theorem Only.of_lookup (hr : r.isLookup = true) (hn : outages n = none)
    (hx : answers.Only r g x h) : (answers.withOutages outages).Only r (g, n) x (h, n + 1) := by
  rintro y ⟨k, m⟩ hy
  simp only [withOutages, hr, if_true, hn] at hy
  obtain ⟨rfl, rfl⟩ := hx y k hy.1
  exact ⟨rfl, Prod.ext rfl hy.2⟩

theorem only_outage (hr : r.isLookup = true) {f : String × Option Fault} (hn : outages n = some f) :
    (answers.withOutages outages).Only r (g, n) (.error (.graphQuery f.1 f.2)) (g, n + 1) := by
  intro y k hy
  simpa only [withOutages, hr, if_true, hn] using hy

/-- Without outages nothing changes. -/
theorem withOutages_none {k : γ} {y : Except Fault r.Reply} (h : answers r g y k) :
    ∃ m, (answers.withOutages Outages.none) r (g, n) y (k, m) := by
  cases hr : r.isLookup with
  | true => exact ⟨n + 1, by simpa [withOutages, hr, Outages.none] using h⟩
  | false => exact ⟨n, by simpa [withOutages, hr] using h⟩

end Answering

namespace Program

variable {α : Type} {answers : Answering γ} {p : Program α}

theorem Ends.of_noOutages {Q : Except Fault α → γ → Prop} {g : γ} {n : Nat}
    (h : p.Ends (answers.withOutages Outages.none) (fun x g ↦ Q x g.1) (g, n)) :
    p.Ends answers Q g := by
  induction p generalizing g n with
  | done a => exact h
  | fail e => exact h
  | ask r k ih =>
    intro x g' hx
    obtain ⟨m, hm⟩ := Answering.withOutages_none (n := n) hx
    exact ih x (h x (g', m) hm)

theorem Gives.of_noOutages {x : Except Fault α} {g h : γ} {n m : Nat}
    (hp : p.Gives (answers.withOutages Outages.none) (g, n) x (h, m)) : p.Gives answers g x h :=
  Ends.of_noOutages (n := n) (hp.ends ⟨rfl, rfl⟩)

end Program

end CodeAtlas
