import CodeAtlas.Indexing.Directory
import CodeAtlas.Models.LanguageModel
import CodeAtlas.Query.Response
import CodeAtlas.Records.VectorStore

/-!
# Putting a service together

The settings say which graph store, language model and embedder are used. The record store is opened
last, because its dimension is that of the embedder.
-/

namespace CodeAtlas

/-- Where the graph is kept. -/
inductive GraphBackend where
  /-- In a database that is sent Cypher statements. -/
  | database
  /-- In a document. -/
  | document
  deriving DecidableEq, Repr

/-- The backend of a name, or else of the settings if there is no name. -/
def GraphBackend.choose (name : Option String) (s : Settings) : Except Fault GraphBackend :=
  match (name.filter fun n ↦ !n.isEmpty).getD s.graphBackend with
  | "neo4j" => .ok .database
  | "json" => .ok .document
  | other => .error (.unsupported "graph backend" other)

/-- What a service consists of. -/
structure Assembly (σ : Type) where
  graph : GraphBackend
  records : Records.VectorStore σ
  embedder : Models.Embedder
  model : Models.LanguageModel
  queue : Queue
  index : Indexing.IndexRules
  query : QueryRules

namespace Assembly

variable {σ : Type}

def name : String := "services"

/-- The parts that can fail, the first failure first. -/
def parts (service : Records.VectorService σ) (s : Settings) :
    Effect σ (GraphBackend × Records.VectorStore σ × Models.Embedder × Models.LanguageModel) := do
  let embedder ← ofExcept (Models.Embedder.ofSettings s)
  let model ← ofExcept (Models.LanguageModel.ofSettings s)
  let graph ← ofExcept (GraphBackend.choose none s)
  let records ← Records.VectorStore.connect service (.ofSettings s (some embedder.dimension) none)
  pure (graph, records, embedder, model)

/-- Puts the service together that the settings ask for. A failure is reported and passed on. -/
def build (service : Records.VectorService σ) (s : Settings) : Effect σ (Assembly σ) := do
  match ← (parts service s).attempt with
  | .ok (graph, records, embedder, model) =>
    pure
      { graph, records, embedder, model
        queue := .empty s.enrichmentQueueMaxsize
        index := .ofSettings s true
        query := .ofSettings s }
  | .error e =>
    modify (service.note ⟨true, name, s!"Error initializing components: {e.text}"⟩)
    throw e

end Assembly

end CodeAtlas
