import CodeAtlas.Cypher.Client

/-!
# Programs over a database

The graph requests of a program, answered by a Cypher database. What the database answers with has to
have the shape that the program expects; if it has not, the request fails.
-/

namespace CodeAtlas.Cypher

/-! ## Reading answers -/

mutual

/-- A value without nodes, relationships and paths is plain data. -/
def plainData? : Value → Option Datum
  | .plain d => some d
  | .list items | .tuple items => (plainItems? items).map .list
  | .map entries => (plainEntries? entries).map .map
  | .node _ | .relationship _ | .path .. => none

def plainItems? : List Value → Option (List Datum)
  | [] => some []
  | v :: rest => do pure ((← plainData? v) :: (← plainItems? rest))

def plainEntries? : List (String × Value) → Option Props
  | [] => some []
  | (key, v) :: rest => do pure ((key, ← plainData? v) :: (← plainEntries? rest))

end

def unexpected {α : Type} (what : String) : Except Fault α :=
  .error (.mismatch (.wrongType s!"the database did not answer with {what}"))

/-- The id that a write answers with. What is no text is taken as it is displayed. -/
def idOf (v : Option Value) : String := ((v.map Value.toDatum).getD .null).display

/-- The number that a write answers with. -/
def numberOf : Value → Nat
  | .plain (.int n) => n.toNat
  | _ => 0

def propsOf (v : Value) : Except Fault Props :=
  match plainData? v with
  | some (.map entries) => .ok entries
  | _ => unexpected "properties"

def edgeOf (r : Record) : Except Fault Edge := do
  pure ⟨← propsOf (← Driver.column "target" r), ← propsOf (← Driver.column "properties" r)⟩

def callOf (r : Record) : Except Fault CallRecord := do
  match ← Driver.column "source" r, ← Driver.column "relationship" r, ← Driver.column "target" r with
  | .node source, .relationship relationship, .node target => pure ⟨source, relationship, target⟩
  | _, _, _ => unexpected "a call"

def numbersOf (counts : List (String × Value)) : List (String × Nat) :=
  counts.map fun (name, n) ↦ (name, numberOf n)

/-! ## Answering requests -/

/-- Answers the requests to the graph; the rest is up to `others`. -/
def Driver.serve {σ : Type} (d : Driver σ) (others : (r : Request) → Effect σ r.Reply) :
    (r : Request) → Effect σ r.Reply
  | .mergeNode label key => do pure (idOf (← d.mergeNode label key))
  | .mergeRelationship type fromLabel fromKey toLabel toKey attrs => do
    pure (idOf (← d.mergeRelationship type fromLabel fromKey toLabel toKey (attrs.getD [])))
  | .findRelationships type fromLabel fromKey attrs => do
    ofExcept ((← d.findRelationships type fromLabel fromKey (attrs.getD [])).mapM edgeOf)
  | .deleteRelationship type fromLabel fromKey toLabel toKey attrs => do
    pure (numberOf (← d.deleteRelationship type fromLabel fromKey toLabel toKey (attrs.getD [])))
  | .expandCalls id => do ofExcept ((← d.expandCalls id).mapM callOf)
  | .graphStats => do
    let (nodes, relationships) ← d.stats
    pure ⟨numbersOf nodes, numbersOf relationships⟩
  | .flushGraph => pure ()
  | .runQuery text => d.query text []
  | r => others r

/-- Runs a program on a database. -/
def Driver.runProgram {σ α : Type} (d : Driver σ) (others : (r : Request) → Effect σ r.Reply)
    (p : Program α) (s : σ) : Except Fault α × σ :=
  p.run (fun r s ↦ d.serve others r s) s

end CodeAtlas.Cypher
