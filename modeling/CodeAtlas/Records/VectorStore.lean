import CodeAtlas.Records.Collection

/-!
# The record store

Function records in a collection of a vector database, under the ids of the functions' nodes. The
collection is made if it is not there. Every failure of the database is reported and becomes a
failure of the storage that says what was being done; only the statistics tell it in their answer.
-/

namespace CodeAtlas.Records

def clientName : String := "milvus_client"

/-- How records are stored. -/
structure StoreRules where
  collection : String
  dimension : Int
  host : String
  port : Int
  /-- The length that code is cut to. -/
  codeLength : Int
  /-- How many records a search finds if it does not say. -/
  limit : Int

namespace StoreRules

/-- The rules that the settings ask for. A dimension and a name that are given come first, unless
they are zero or empty. -/
def ofSettings (s : Settings) (dimension : Option Int) (name : Option String) : StoreRules where
  collection := (name.filter fun n ↦ !n.isEmpty).getD s.milvusCollectionName
  dimension := (dimension.filter fun d ↦ d != 0).getD s.milvusDimension
  host := s.milvusHost
  port := s.milvusPort
  codeLength := s.maxCodeLength
  limit := s.topKResults

end StoreRules

/-- A record store; once it is closed to its collection, it has none. -/
structure VectorStore (σ : Type) where
  service : VectorService σ
  rules : StoreRules
  hasCollection : Bool

namespace VectorStore

variable {σ α : Type}

/-! ## Failures -/

/-- Reports a failure and makes it one of the storage. -/
def orStorageFault (service : VectorService σ) (step : Effect σ α) (report message : String) :
    Effect σ α := do
  match ← step.attempt with
  | .ok a => pure a
  | .error e =>
    modify (service.note ⟨true, clientName, s!"{report}: {e.text}"⟩)
    throw (.storage s!"{message}: {e.text}" (some e))

/-! ## Opening and closing -/

/-- Makes sure that the collection is there and can be searched. -/
def prepare (service : VectorService σ) (rules : StoreRules) : Effect σ Unit := do
  if !(← service.hasCollection rules.collection) then
    service.create rules.collection (columns rules.dimension)
    service.call (.createIndex embeddingField indexParameters)
  service.call .load

def connect (service : VectorService σ) (rules : StoreRules) : Effect σ (VectorStore σ) := do
  orStorageFault service (service.connect rules.host rules.port) "Failed to connect to Milvus"
    "cannot connect to Milvus"
  orStorageFault service (prepare service rules) "Failed to ensure collection"
    s!"cannot prepare collection {rules.collection}"
  pure ⟨service, rules, true⟩

/-- A failure to disconnect is reported and does no harm. -/
def close (s : VectorStore σ) : Effect σ Unit := do
  match ← s.service.disconnect.attempt with
  | .ok () => pure ()
  | .error e =>
    modify (s.service.note ⟨true, clientName, s!"Failed to disconnect from Milvus: {e.text}"⟩)

/-- The store without its collection. -/
def dropped (s : VectorStore σ) : VectorStore σ := { s with hasCollection := false }

/-! ## Records -/

/-- Asks the collection, if there is one; `operation` is what it is asked for. -/
def call (s : VectorStore σ) (operation : String) (c : CollectionCall) : Effect σ c.Reply :=
  if s.hasCollection then s.service.call c
  else throw (.mismatch (.noOperation s!"'NoneType' object has no attribute '{operation}'"))

/-- Stores a record in the place of any record with its id. It has to have an embedding. -/
def upsert (s : VectorStore σ) (r : FunctionRecord) : Effect σ Unit :=
  match r.embedding with
  | none | some [] => throw (.storage s!"record {r.id} has no embedding" none)
  | some embedding =>
    let store : Effect σ Unit := do
      s.call "upsert" (.upsert (Row.ofRecord s.rules.codeLength embedding r))
      s.call "flush" .flush
    orStorageFault s.service store s!"Failed to upsert function record {r.id}"
      s!"upsert failed for {r.id}"

/-- The record with an id. -/
def get (s : VectorStore σ) (id : String) : Effect σ (Option FunctionRecord) :=
  let find : Effect σ (Option FunctionRecord) := do
    let rows : List Row ← s.call "query" (.query (idExpression id) outputFields)
    pure (rows.head?.map Row.record)
  orStorageFault s.service find s!"Failed to get function record {id}" s!"lookup failed for {id}"

def contains (s : VectorStore σ) (id : String) : Effect σ Bool := Option.isSome <$> s.get id

/-- The records nearest to an embedding, the best first. -/
def nearest (s : VectorStore σ) (embedding : List Number) (limit : Option Int) :
    Effect σ (List Hit) :=
  let limit := (limit.filter fun k ↦ k != 0).getD s.rules.limit
  let find : Effect σ (List Hit) := do
    let found : List (Row × Number) ←
      s.call "search" (.search embedding embeddingField searchParameters limit outputFields)
    pure (found.map fun (row, score) ↦ ⟨row.record, score⟩)
  orStorageFault s.service find "Failed to search similar functions" "similarity search failed"

/-- The name of the collection and the number of its records. -/
def stats (s : VectorStore σ) : Effect σ Props := do
  if !s.hasCollection then pure [("error", .text "Collection not initialized")]
  else
    let count : Effect σ Int := s.service.call .count
    match ← count.attempt with
    | .ok n => pure [("collection_name", .text s.rules.collection), ("num_entities", .int n)]
    | .error e =>
      modify (s.service.note ⟨true, clientName, s!"Failed to get collection stats: {e.text}"⟩)
      pure [("error", .text e.text)]

/-! ## Programs over the store -/

/-- Answers the requests for records; the rest is up to `others`. -/
def serve (s : VectorStore σ) (others : (r : Request) → Effect σ r.Reply) :
    (r : Request) → Effect σ r.Reply
  | .findRecord id => s.get id
  | .hasRecord id => s.contains id
  | .storeRecord record => s.upsert record
  | .nearest embedding limit => s.nearest embedding (some limit)
  | .recordStats => s.stats
  | r => others r

end VectorStore

end CodeAtlas.Records
