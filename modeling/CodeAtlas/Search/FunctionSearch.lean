import CodeAtlas.Program
import CodeAtlas.Search.Ranking
import CodeAtlas.Search.Relevance

/-!
# Searching functions by meaning

The query is embedded, the records nearest to it are fetched, and their order is revised by how
relevant their summaries are to the words of the query.
-/

namespace CodeAtlas.Search

/-- How the records that were found are ordered. -/
structure SearchRules where
  /-- The number of results where none is asked for. -/
  standardLimit : Int
  rerank : Bool
  weights : Weights Float

/-- The rules that the settings ask for. -/
def SearchRules.ofSettings (s : Settings) : SearchRules where
  standardLimit := s.topKResults
  rerank := s.rerankEnabled
  weights := ⟨s.rerankVectorWeight.toFloat, s.rerankBm25Weight.toFloat⟩

/-- The number of records to fetch; zero asks for the standard number. -/
def SearchRules.limit (rules : SearchRules) (asked : Option Int) : Int :=
  match asked with
  | some k => if k == 0 then rules.standardLimit else k
  | none => rules.standardLimit

/-- How relevant texts are to a query. -/
abbrev Scorer := String → List String → List Float

/-- The positions of hits, best first. -/
def hitOrder (scorer : Scorer) (rules : SearchRules) (query : String) (hits : List Hit) :
    Except Fault (List Nat) :=
  if rules.rerank && 1 < hits.length then
    rank rules.weights (hits.map fun h ↦ h.score.toFloat)
      (scorer query (hits.map fun h ↦ h.record.summary))
  else .ok (List.range hits.length)

def rankedAt (hits : List Hit) (place : Nat × Nat) : Option RankedFunction :=
  hits[place.1]?.map fun h ↦
    { id := h.record.id, name := h.record.name, path := h.record.path, score := h.score
      rank := place.2, summary := h.record.summary }

/-- The hits in the given order, with ranks from one. -/
def ranked (hits : List Hit) (order : List Nat) : List RankedFunction :=
  (order.zip (List.range' 1 order.length)).filterMap (rankedAt hits)

/-- Searches for functions whose summaries are scored in some way. -/
def searchBy (scorer : Scorer) (rules : SearchRules) (query : String) (asked : Option Int) :
    Program (List RankedFunction) := do
  let embedding ← Program.request (.embed query)
  let hits ← Program.request (.nearest embedding (rules.limit asked))
  let order ← Program.ofExcept (hitOrder scorer rules query hits)
  pure (ranked hits order)

/-- Searches for functions. -/
def search : SearchRules → String → Option Int → Program (List RankedFunction) :=
  searchBy relevance

end CodeAtlas.Search
