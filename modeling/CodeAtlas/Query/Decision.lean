import CodeAtlas.Enrichment.Process

/-!
# Routing a query

A query goes to the graph or to the search over summaries. A language model is asked which; whatever
it answers, there is a decision. Only a clear word for the graph leads there, everything else is
searched for, with the model's description of what is wanted if it gave one.
-/

namespace CodeAtlas

inductive Route where
  | vector | graph
  deriving DecidableEq, Repr

def Route.name : Route → String
  | vector => "vector"
  | graph => "graph"

structure Decision where
  route : Route
  reason : String
  /-- What to search for. -/
  searchText : Option String
  deriving DecidableEq, Repr

namespace Decision

def toDatum (d : Decision) : Datum :=
  .map [("decision", .text d.route.name), ("reason", .text d.reason),
    ("search_text", match d.searchText with
      | some t => .text t
      | none => .null)]

def classifierName : String := "query_classifier"

/-- The words for the two routes. -/
def routeOf? (tag : String) : Option Route :=
  if ["vector", "sql", "semantic"].contains tag then some .vector
  else if ["graph", "neo4j", "cypher"].contains tag then some .graph
  else none

/-- The value of a key as trimmed text; a value that counts as false gives the empty text. -/
def textOf (key : String) (payload : Props) : String :=
  match Props.get? key payload with
  | some d => if d.truthy then Text.trim d.display else ""
  | none => ""

/-- The word for a route, in small letters. -/
def tagOf (payload : Props) : String :=
  match Props.get? "decision" payload with
  | some d => Text.lowerCase (Text.trim d.display)
  | none => ""

/-- What to search for: the summary, or the query if there is none. -/
def searchTextOf (query : String) (payload : Props) : String :=
  let summary := textOf "summary" payload
  if summary.isEmpty then query else summary

/-- The decision that an object stands for, and whether its word for the route is known. -/
def ofPayload (query : String) (payload : Props) : Decision × Bool :=
  let route := routeOf? (tagOf payload)
  let searchText := some (searchTextOf query payload)
  match route with
  | some .graph => (⟨.graph, textOf "reason" payload, none⟩, true)
  | some .vector => (⟨.vector, textOf "reason" payload, searchText⟩, true)
  | none => (⟨.vector, textOf "reason" payload, searchText⟩, false)

/-- The decision where the model gave no object. -/
def fallback (query : String) : Decision := ⟨.vector, "Searching functions by meaning.", some query⟩

/-- How a reply that breaks a bound of the reader is refused. -/
def readFault : Json.ReadError → Fault
  | .tooDeep => .mismatch .tooDeep
  | _ => .mismatch (.badValue "Exceeds the limit (4300 digits) for integer string conversion")

/-- The decision that a reply stands for, with a remark if the reply is not as asked for. -/
def ofReply (query reply : String) : Except Json.ReadError (Decision × Option String) :=
  match Reply.object? reply with
  | .error e => .error e
  | .ok none =>
    .ok (fallback query,
      some s!"Unparsable classifier answer, using vector search: {Text.quoted reply}")
  | .ok (some payload) =>
    match ofPayload query payload with
    | (d, true) => .ok (d, none)
    | (d, false) =>
      .ok (d, some s!"Unknown classifier decision {Text.quoted (tagOf payload)}, using vector search")

open Program in
/-- Asks the model where a query goes. -/
def classify (query : String) : Program Decision := do
  match ← (Enrichment.complete (Prompt.classification query)).attempt with
  | .error e => .fail (.classification s!"classifier unavailable: {e.text}" (some e))
  | .ok reply =>
    match ofReply query reply with
    | .error e => .fail (readFault e)
    | .ok (d, none) => pure d
    | .ok (d, some remark) => do
      warn classifierName remark
      pure d

end Decision

end CodeAtlas
