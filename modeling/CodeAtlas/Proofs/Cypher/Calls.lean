import CodeAtlas.Proofs.Cypher.Transactions

/-!
# Calls of a client

Every operation of a client has one form. First its statements are made, which fails if a name is
not accepted. Then they are sent: a call that writes has one statement, and one that reads has one or
two. What the call answers with is then made of the tables alone. So the course of a call follows from
the courses of writes and reads, which are known, and nothing else about the operations is needed.
-/

namespace CodeAtlas.Cypher

variable {σ α γ ρ : Type}

/-! ## Courses -/

/-- The events of a call and what it comes to. What is sent has to be made first; nothing happens if
this fails, and otherwise `P` says what does. -/
inductive IsCourse (made : Except Fault γ) (P : γ → List Event → Except Fault ρ → Prop) :
    List Event → Except Fault ρ → Prop
  | refused {e : Fault} (h : made = .error e) : IsCourse made P [] (.error e)
  | sent {a : γ} {events : List Event} {x : Except Fault ρ} (h : made = .ok a)
    (hsent : P a events x) : IsCourse made P events x

theorem exists_isCourse (made : Except Fault γ) {P : γ → List Event → Except Fault ρ → Prop}
    {f : γ → Effect σ ρ} {g : γ → Effect (σ × List Event) ρ} {s : σ}
    (h : ∀ a, ∃ events, Records (f a) (g a) s events ∧ P a events (f a s).1) :
    ∃ events, Records (ofExcept made >>= f) (ofExcept made >>= g) s events ∧
      IsCourse made P events ((ofExcept made >>= f) s).1 := by
  cases made with
  | error e =>
    rw [Effect.ofExcept_error_bind, Effect.ofExcept_error_bind]
    exact ⟨[], Records.of_throw e s, .refused rfl⟩
  | ok a =>
    rw [Effect.ofExcept_ok_bind, Effect.ofExcept_ok_bind]
    obtain ⟨events, hrecords, hsent⟩ := h a
    exact ⟨events, hrecords, .sent rfl hsent⟩

/-! ## Calls that write -/

inductive WriteCall where
  | mergeNode (label : String) (key : Props)
  | mergeRelationship (type fromLabel : String) (fromKey : Props) (toLabel : String)
      (toKey attrs : Props)
  | deleteRelationship (type fromLabel : String) (fromKey : Props) (toLabel : String)
      (toKey attrs : Props)
  | clear

namespace WriteCall

def Reply : WriteCall → Type
  | mergeNode .. | mergeRelationship .. => Option Value
  | deleteRelationship .. => Value
  | clear => Unit

def run (d : Driver σ) : (c : WriteCall) → Effect σ c.Reply
  | mergeNode label key => d.mergeNode label key
  | mergeRelationship type fromLabel fromKey toLabel toKey attrs =>
    d.mergeRelationship type fromLabel fromKey toLabel toKey attrs
  | deleteRelationship type fromLabel fromKey toLabel toKey attrs =>
    d.deleteRelationship type fromLabel fromKey toLabel toKey attrs
  | clear => d.clear

/-- What is sent. -/
def statement : WriteCall → Except Fault Statement
  | mergeNode label key => Cypher.mergeNode label key
  | mergeRelationship type fromLabel fromKey toLabel toKey attrs =>
    Cypher.mergeRelationship type fromLabel fromKey toLabel toKey attrs
  | deleteRelationship type fromLabel fromKey toLabel toKey attrs =>
    Cypher.deleteRelationship type fromLabel fromKey toLabel toKey attrs
  | clear => .ok Cypher.clear

/-- The reply, from the first value that the database answers with. -/
def reply : (c : WriteCall) → Option Value → c.Reply
  | mergeNode .., v => v
  | mergeRelationship .., v => v
  | deleteRelationship .., v => (v.filter Value.truthy).getD (.plain (.int 0))
  | clear, _ => ()

theorem run_eq (d : Driver σ) (c : WriteCall) :
    c.run d = ofExcept c.statement >>= fun q ↦ c.reply <$> d.write q := by
  cases c with
  | mergeNode label key => exact bind_congr fun q ↦ (id_map _).symm
  | mergeRelationship type fromLabel fromKey toLabel toKey attrs =>
    exact bind_congr fun q ↦ (id_map _).symm
  | deleteRelationship type fromLabel fromKey toLabel toKey attrs =>
    exact bind_congr fun q ↦ bind_pure_comp _ _
  | clear => exact bind_pure_comp _ _

/-- The call takes a course with these events, and this is what it comes to. -/
def Takes (c : WriteCall) : List Event → Except Fault c.Reply → Prop :=
  IsCourse c.statement fun q ↦ IsWrite q fun t ↦ c.reply t.first?

/-- **A call that writes takes a course.** -/
theorem exists_takes (d : Driver σ) (c : WriteCall) (s : σ) :
    ∃ events, Records (c.run d) (c.run d.recording) s events ∧ c.Takes events (c.run d s).1 := by
  rw [run_eq, run_eq]
  refine exists_isCourse c.statement fun q ↦ ?_
  obtain ⟨events, hrecords, hwrite⟩ := d.exists_isWrite q s
  refine ⟨events, hrecords.map c.reply, ?_⟩
  rw [Effect.map_eq]
  exact hwrite.map c.reply

end WriteCall

/-! ## Calls that read -/

inductive ReadCall where
  | findRelationships (type fromLabel : String) (fromKey attrs : Props)
  | getNode (label : String) (key : Props)
  | nodeById (id : String)
  | query (text : String) (parameters : Props)
  | expandCalls (functionId : String)
  | stats

namespace ReadCall

def Reply : ReadCall → Type
  | findRelationships .. | query .. | expandCalls .. => List Record
  | getNode .. | nodeById .. => Option Value
  | stats => List (String × Value) × List (String × Value)

def run (d : Driver σ) : (c : ReadCall) → Effect σ c.Reply
  | findRelationships type fromLabel fromKey attrs =>
    d.findRelationships type fromLabel fromKey attrs
  | getNode label key => d.getNode label key
  | nodeById id => d.nodeById id
  | query text parameters => d.query text parameters
  | expandCalls functionId => d.expandCalls functionId
  | stats => d.stats

/-- What is sent, if nothing fails. -/
def statements : ReadCall → Except Fault (List Statement)
  | findRelationships type fromLabel fromKey attrs =>
    (Cypher.findRelationships type fromLabel fromKey attrs).map fun q ↦ [q]
  | getNode label key => (Cypher.getNode label key).map fun q ↦ [q]
  | nodeById id => .ok [Cypher.nodeById id]
  | query text parameters => .ok [.with text parameters]
  | expandCalls functionId => .ok [Cypher.expandCalls functionId]
  | stats => .ok [countNodes, countRelationships]

/-- The reply, from the records that each of the statements is answered with. -/
def reply : (c : ReadCall) → List (List Record) → Except Fault c.Reply
  | findRelationships .., records => .ok records.flatten
  | getNode .., records => Driver.firstOf "n" records.flatten
  | nodeById _, records => Driver.firstOf "n" records.flatten
  | query .., records => .ok records.flatten
  | expandCalls _, records => .ok records.flatten
  | stats, records => do
    let nodeCounts ← Driver.countsOf "label" (records.getD 0 [])
    let relationshipCounts ← Driver.countsOf "type" (records.getD 1 [])
    pure (nodeCounts, relationshipCounts)

section

variable (d : Driver σ) (q : Statement)

private theorem bind_read_one (f : List Record → Except Fault α) :
    (d.read q >>= fun records ↦ ofExcept (f records)) =
      [q].mapM d.read >>= fun records ↦ ofExcept (f records.flatten) := by
  simp only [List.mapM_cons, List.mapM_nil, pure_bind, bind_assoc, List.flatten_singleton]

private theorem read_one :
    d.read q = [q].mapM d.read >>= fun records ↦ ofExcept (.ok records.flatten) :=
  (bind_pure (d.read q)).symm.trans (bind_read_one d q .ok)

end

theorem run_eq (d : Driver σ) (c : ReadCall) :
    c.run d = ofExcept c.statements >>= fun qs ↦ qs.mapM d.read >>= fun records ↦
      ofExcept (c.reply records) := by
  cases c with
  | findRelationships type fromLabel fromKey attrs =>
    rw [statements, Effect.ofExcept_map_bind]
    exact bind_congr fun q ↦ read_one d q
  | getNode label key =>
    rw [statements, Effect.ofExcept_map_bind]
    exact bind_congr fun q ↦ bind_read_one d q (Driver.firstOf "n")
  | nodeById id => exact bind_read_one d (Cypher.nodeById id) (Driver.firstOf "n")
  | query text parameters => exact read_one d (.with text parameters)
  | expandCalls functionId => exact read_one d (Cypher.expandCalls functionId)
  | stats =>
    -- both statements are read before any count is looked at
    have hmapM : [countNodes, countRelationships].mapM d.read =
        d.read countNodes >>= fun nodes ↦ d.read countRelationships >>= fun relationships ↦
          pure [nodes, relationships] := by
      simp only [List.mapM_cons, List.mapM_nil, pure_bind, bind_assoc]
    rw [statements, Effect.ofExcept_ok_bind, hmapM]
    simp only [bind_assoc, pure_bind]
    refine bind_congr fun nodes ↦ bind_congr fun relationships ↦ ?_
    rw [reply, List.getD_cons_zero, List.getD_cons_succ, List.getD_cons_zero]
    rcases Driver.countsOf "label" nodes with e | nodeCounts
    · rfl
    · rcases Driver.countsOf "type" relationships with e | relationshipCounts
      · rfl
      · rfl

/-- The call takes a course with these events, and this is what it comes to. -/
def Takes (c : ReadCall) : List Event → Except Fault c.Reply → Prop :=
  IsCourse c.statements fun qs events x ↦ ∃ y, AreReads qs events y ∧ x = y.bind c.reply

/-- **A call that reads takes a course.** -/
theorem exists_takes (d : Driver σ) (c : ReadCall) (s : σ) :
    ∃ events, Records (c.run d) (c.run d.recording) s events ∧ c.Takes events (c.run d s).1 := by
  rw [run_eq, run_eq]
  refine exists_isCourse c.statements fun qs ↦ ?_
  obtain ⟨events, hrecords, hreads⟩ := d.exists_areReads qs s
  refine ⟨events, hrecords.bind_ofExcept c.reply, _, hreads, ?_⟩
  rw [Effect.bind_ofExcept_eq]

end ReadCall

end CodeAtlas.Cypher
