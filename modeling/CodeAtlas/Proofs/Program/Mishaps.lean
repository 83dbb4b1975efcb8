import CodeAtlas.Proofs.Program.Interleaving

/-!
# Requests that go wrong

A mishap is a fault in place of an answer, and it says nothing about what has become of the request:
it may not have been received, or it may have been carried out, or the fault may have come in
between. Merging a relationship is done in three parts, since the nodes at its ends are merged first,
and what was done before the fault stays done.

Mishaps are laid over a program, not over whoever answers: they belong to the program that has them,
also when it takes turns with others. Which of its requests go wrong is given by their numbers, in
the order in which they are made.
-/

namespace CodeAtlas

/-- The first parts of a request are done, and then comes the fault. -/
structure Mishap where
  done : Nat
  fault : Fault

abbrev Mishaps := Nat → Option Mishap

namespace Mishaps

def none : Mishaps := fun _ ↦ Option.none

end Mishaps

namespace Request

/-- What is done for a request, in order. -/
def parts : Request → List Request
  | mergeRelationship type fromLabel fromKey toLabel toKey attrs =>
    [mergeNode fromLabel fromKey, mergeNode toLabel toKey,
      mergeRelationship type fromLabel fromKey toLabel toKey attrs]
  | r => [r]

end Request

namespace Program

variable {α : Type}

/-- Makes the requests, whatever the answers, and goes on. -/
def afterAll (rs : List Request) (p : Program α) : Program α :=
  rs.foldr (fun r p ↦ ask r fun _ ↦ p) p

/-- The program with mishaps. The number is that of the next request. -/
def withMishaps (mishaps : Mishaps) : Program α → Nat → Program α
  | done a, _ => done a
  | fail e, _ => fail e
  | ask r k, i =>
    match mishaps i with
    | none => ask r fun x ↦ (k x).withMishaps mishaps (i + 1)
    | some m => afterAll (r.parts.take m.done) ((k (.error m.fault)).withMishaps mishaps (i + 1))

/-- Without mishaps nothing changes. -/
theorem withMishaps_none (p : Program α) (i : Nat) : p.withMishaps Mishaps.none i = p := by
  induction p generalizing i with
  | done a => rfl
  | fail e => rfl
  | ask r k ih => exact congrArg (ask r) (funext fun x ↦ ih x (i + 1))

variable {P : Request → Prop} {R : (r : Request) → Except Fault r.Reply → Prop} {Q : α → Prop}
  {p : Program α}

theorem Asks.afterAll {rs : List Request} (hp : p.Asks P R Q) (hrs : ∀ r ∈ rs, P r) :
    (afterAll rs p).Asks P R Q := by
  induction rs with
  | nil => exact hp
  | cons r rs ih =>
    rw [List.forall_mem_cons] at hrs
    exact ⟨hrs.1, fun _ _ ↦ ih hrs.2⟩

/-- **Mishaps lead to no other requests**, if a fault is an answer to expect, and if whatever is done
for a request might have been requested. -/
theorem Asks.withMishaps (hp : p.Asks P R Q) (hfault : ∀ r e, R r (.error e))
    (hparts : ∀ r, P r → ∀ q ∈ r.parts, P q) (mishaps : Mishaps) (i : Nat) :
    (p.withMishaps mishaps i).Asks P R Q := by
  induction p generalizing i with
  | done a => exact hp
  | fail e => trivial
  | ask r k ih =>
    rw [Program.withMishaps]
    split
    · exact ⟨hp.1, fun x hx ↦ ih x (hp.2 x hx) (i + 1)⟩
    · exact (ih _ (hp.2 _ (hfault r _)) (i + 1)).afterAll fun q hq ↦
        hparts r hp.1 q (List.mem_of_mem_take hq)

end Program

end CodeAtlas
