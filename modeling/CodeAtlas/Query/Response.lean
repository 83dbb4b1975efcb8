import CodeAtlas.Query.Decision
import CodeAtlas.Query.Plan
import CodeAtlas.Search.FunctionSearch

/-!
# Answering queries

A query is classified and answered from one of the two stores. On request the result is rendered as
text, and a language model words an answer from it.
-/

namespace CodeAtlas

/-- What was found for a query. -/
inductive Found where
  | functions (fs : List RankedFunction)
  | plan (p : Plan)

structure Response where
  decision : Decision
  found : Found

/-- How queries are answered, and what is there to answer them. -/
structure QueryRules where
  search : Search.SearchRules
  maxAttempts : Int
  canSearch : Bool
  canAnswer : Bool

/-- The rules that the settings ask for, with everything there to answer. -/
def QueryRules.ofSettings (s : Settings) : QueryRules where
  search := .ofSettings s
  maxAttempts := s.queryMaxAttempts
  canSearch := true
  canAnswer := true

namespace Response

open Program

def toProps (r : Response) : Props :=
  match r.found with
  | .functions fs =>
    [("decision", r.decision.toDatum), ("functions", .list (fs.map RankedFunction.toDatum)),
      ("plan", .null)]
  | .plan p => [("decision", r.decision.toDatum), ("functions", .list []), ("plan", p.toDatum)]

def toDatum (r : Response) : Datum := .map r.toProps

instance : ToDatum Response := ⟨toDatum⟩

/-- Classifies a query and answers it from the store that it is for. -/
def find (rules : QueryRules) (query : String) (limit : Option Int) : Program Response := do
  let decision ← Decision.classify query
  match decision.route with
  | .graph => pure ⟨decision, .plan (← Plan.make rules.maxAttempts query)⟩
  | .vector =>
    if rules.canSearch then
      let text := match decision.searchText with
        | some t => if t.isEmpty then query else t
        | none => query
      pure ⟨decision, .functions (← Search.search rules.search text limit)⟩
    else .fail (.outside .runtime "vector search is not configured")

/-- A function as a line of text, and its summary as another one. -/
def functionLines (f : RankedFunction) : List String :=
  s!"{f.rank}. {f.name} ({f.path})" :: if f.summary.isEmpty then [] else ["   " ++ f.summary]

/-- A result as plain text. -/
def render (r : Response) : String :=
  match r.found with
  | .plan p => Json.write .pretty p.subgraph.toDatum
  | .functions fs => String.intercalate "\n" (fs.flatMap functionLines)

/-- Finds something for a query and has a model word an answer from it. -/
def answer (rules : QueryRules) (query : String) : Program (Response × String) := do
  if !rules.canAnswer then .fail (.outside .runtime "answer generation is not configured")
  else
    let r ← find rules query none
    let text ← Enrichment.complete (Prompt.answer query r.render)
    pure (r, text)

end Response

end CodeAtlas
