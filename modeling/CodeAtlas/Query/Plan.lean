import CodeAtlas.Enrichment.Process
import CodeAtlas.Query.Subgraph

/-!
# Answering from the graph

A language model writes a graph query, the graph executes it, and an error goes back to the model
together with the question, until a query succeeds or the attempts are used up. A failure that is
not a failure of the query ends the plan at once.
-/

namespace CodeAtlas

/-- A graph query that succeeded, with its records and the attempts that led to it. -/
structure Plan where
  query : String
  records : List Record
  attempts : List Attempt

def Attempt.toDatum (a : Attempt) : Datum :=
  .map [("query", .text a.query), ("error", match a.error with
    | some e => .text e
    | none => .null)]

instance : ToDatum Attempt := ⟨Attempt.toDatum⟩

namespace Plan

open Program

def plannerName : String := "query_planner"

def subgraph (p : Plan) : Subgraph := Subgraph.ofRecords .everything p.records

def toDatum (p : Plan) : Datum :=
  .map [("query", .text p.query), ("attempts", .list (p.attempts.map Attempt.toDatum)),
    ("subgraph", p.subgraph.toDatum)]

instance : ToDatum Plan := ⟨toDatum⟩

/-- Asks the model for a graph query. -/
def generate (question : String) (error : Option String) : Program String := do
  pure (Reply.withoutFence (← Enrichment.complete (Prompt.cypher question error)))

/-- Makes up to `left` more attempts after the given ones. -/
def attemptsFrom (question : String) (most : Int) : Nat → List Attempt → Option String → Program Plan
  | 0, attempts, _ => .fail (.generation question attempts none)
  | left + 1, attempts, error => do
    let candidate ← generate question error
    match ← (request (.runQuery candidate)).attempt with
    | .ok records => pure ⟨candidate, records, attempts ++ [⟨candidate, none⟩]⟩
    | .error (.graphQuery m _) =>
      warn plannerName s!"Attempt {attempts.length + 1}/{most} failed: {m}"
      attemptsFrom question most left (attempts ++ [⟨candidate, some m⟩]) (some m)
    | .error e => .fail e

/-- Answers a question from the graph, with at most the given number of attempts. -/
def make (most : Int) (question : String) : Program Plan :=
  attemptsFrom question most most.toNat [] none

end Plan

end CodeAtlas
