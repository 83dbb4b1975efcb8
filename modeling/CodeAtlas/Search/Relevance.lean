import CodeAtlas.Search.Tokens

/-!
# Relevance of documents to a query

The Okapi weighting: a token counts the more, the fewer documents have it and the more often the
document at hand has it, with a discount for long documents. A token that more than half of the
documents have would count against a document; such tokens all get the same small share of the
average weight instead.

Like the ordering of scores, the weighting is stated for any kind of number that can count and has a
logarithm.
-/

namespace CodeAtlas.Search

/-- What the weighting needs of numbers besides arithmetic. -/
class Counting (K : Type) where
  ofCount : Int → K
  log : K → K

instance : Counting Float := ⟨Float.ofInt, Float.log⟩

open Counting (ofCount log)

/-- How many elements of a list equal the given one. -/
def occurrences (token : String) (document : List String) : Nat := document.count token

/-- Counts one document more for a token. -/
def countToken (counts : List (String × Nat)) (token : String) : List (String × Nat) :=
  match counts.find? fun p ↦ p.1 == token with
  | some _ => counts.map fun p ↦ if p.1 == token then (p.1, p.2 + 1) else p
  | none => counts ++ [(token, 1)]

/-- The tokens of all documents in the order of first occurrence, each with the number of documents
that have it. -/
def documentFrequencies (documents : List (List String)) : List (String × Nat) :=
  documents.foldl (fun counts document ↦ document.eraseDups.foldl countToken counts) []

/-- The number of tokens of all documents. -/
def totalLength (documents : List (List String)) : Nat :=
  documents.foldl (fun n document ↦ n + document.length) 0

/-- The constants of the weighting. -/
structure Okapi (K : Type) where
  /-- How soon further occurrences of a token stop to matter. -/
  saturation : K
  /-- How much the length of a document matters. -/
  lengthShare : K
  /-- The share of the average weight that a very common token gets. -/
  commonShare : K

/-- What is known of documents before there is a query. -/
structure Index (K : Type) where
  /-- The weights of all tokens. -/
  weights : List (String × K)
  /-- The weight of very common tokens. -/
  common : K
  averageLength : K

variable {K : Type} [Add K] [Sub K] [Mul K] [Div K] [LT K] [DecidableLT K] [OfScientific K]
  [Counting K]

def okapi : Okapi K := ⟨1.5, 0.75, 0.25⟩

/-- The weight of a token that `frequency` of `count` documents have. -/
def rarity (count frequency : Nat) : K :=
  log (ofCount (count - frequency) + 0.5) - log (ofCount frequency + 0.5)

/-- All tokens and how rare they are. -/
def rarities (documents : List (List String)) : List (String × K) :=
  (documentFrequencies documents).map fun (t, n) ↦ (t, rarity documents.length n)

def Index.ofDocuments (o : Okapi K) (documents : List (List String)) : Index K :=
  let raw : List (String × K) := rarities documents
  let total := raw.foldl (fun sum p ↦ sum + p.2) 0.0
  let common := o.commonShare * (total / ofCount raw.length)
  { weights := raw.map fun (t, w) ↦ (t, if w < 0.0 then common else w)
    common
    averageLength := ofCount (totalLength documents) / ofCount documents.length }

/-- The weight of a token; one that no document has weighs nothing. -/
def Index.weight (index : Index K) (token : String) : K :=
  match index.weights.find? fun p ↦ p.1 == token with
  | some (_, w) => w
  | none => 0.0

/-- What one token of the query adds to the score of one document. -/
def contribution (o : Okapi K) (averageLength weight : K) (token : String)
    (document : List String) : K :=
  let f := ofCount (occurrences token document)
  let length := ofCount document.length
  weight * (f * (o.saturation + 1.0)
    / (f + o.saturation * (1.0 - o.lengthShare + o.lengthShare * length / averageLength)))

/-- The scores of tokenised documents, at least one of which has a token. -/
def okapiScores (o : Okapi K) (query : List String) (documents : List (List String)) : List K :=
  let index := Index.ofDocuments o documents
  documents.map fun document ↦
    query.foldl (fun score token ↦
      score + contribution o index.averageLength (index.weight token) token document) 0.0

/-- The scores that documents get by their tokens; all are zero where the query or every document is
empty. -/
def relevanceBy (score : List String → List (List String) → List K) (query : String)
    (documents : List String) : List K :=
  let corpus := documents.map tokens
  let queryTokens := tokens query
  if queryTokens.isEmpty || corpus.all List.isEmpty then documents.map fun _ ↦ 0.0
  else score queryTokens corpus

def relevanceScores : String → List String → List K := relevanceBy (okapiScores okapi)

def relevance : String → List String → List Float := relevanceScores

end CodeAtlas.Search
