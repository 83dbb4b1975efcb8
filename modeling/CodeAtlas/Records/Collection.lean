import CodeAtlas.Effect
import CodeAtlas.Json.Writer
import CodeAtlas.Records.Record
import CodeAtlas.Text.Cut

/-!
# Collections of a vector database

A collection keeps rows under their ids. Rows are looked up by an expression, which is a text, and
searched by an embedding. An id in an expression is written as a JSON literal, so no id can change
what the expression means.
-/

namespace CodeAtlas.Records

/-! ## Rows -/

/-- What a collection keeps of a function. -/
structure Row where
  id : String
  name : String
  path : String
  code : String
  summary : String
  startLine : Int
  endLine : Int
  embedding : List Number
  deriving Inhabited

/-- The row as a record. Embeddings are not read back. -/
def Row.record (r : Row) : FunctionRecord :=
  { id := r.id
    name := r.name
    path := r.path
    summary := r.summary
    embedding := none
    code := some r.code
    startLine := r.startLine
    endLine := r.endLine }

/-- What a summary is cut to. -/
def summaryLength : Nat := 8192

/-- The row of a record; its code is cut to the given length. -/
def Row.ofRecord (codeLength : Int) (embedding : List Number) (r : FunctionRecord) : Row :=
  { id := r.id
    name := r.name
    path := r.path
    code := Text.cut codeLength (r.code.getD "")
    summary := Text.cut summaryLength r.summary
    startLine := r.startLine
    endLine := r.endLine
    embedding }

/-- The values that are asked for. -/
def outputFields : List String := ["id", "name", "path", "code", "summary", "start_line", "end_line"]

/-! ## Expressions -/

/-- Where an expression names the value that it compares. -/
def idStart : String := "id == "

/-- The expression that holds for one id. -/
def idExpression (id : String) : String := idStart ++ Json.write .line (.text id)

/-! ## Schemas -/

inductive ColumnType where
  | text (maxLength : Nat)
  | integer
  | vector (dimension : Int)
  deriving DecidableEq, Repr

/-- The database's name for a type. -/
def ColumnType.name : ColumnType → String
  | text _ => "VARCHAR"
  | integer => "INT32"
  | vector _ => "FLOAT_VECTOR"

def ColumnType.parameters : ColumnType → Props
  | text maxLength => [("max_length", .int maxLength)]
  | integer => []
  | vector dimension => [("dim", .int dimension)]

structure Column where
  name : String
  type : ColumnType
  isKey : Bool
  deriving DecidableEq, Repr

instance : ToDatum Column := ⟨fun c ↦
  .list [.text c.name, .text c.type.name, .map c.type.parameters, .bool c.isKey]⟩

def embeddingField : String := "embedding"

/-- The columns of a collection of functions. -/
def columns (dimension : Int) : List Column :=
  [⟨"id", .text 128, true⟩, ⟨"name", .text 512, false⟩, ⟨"path", .text 2048, false⟩,
    ⟨"code", .text 65535, false⟩, ⟨"summary", .text summaryLength, false⟩,
    ⟨"start_line", .integer, false⟩, ⟨"end_line", .integer, false⟩,
    ⟨embeddingField, .vector dimension, false⟩]

/-- Embeddings are compared by their angle. -/
def metric : String × Datum := ("metric_type", .text "COSINE")

def indexParameters : Props :=
  [metric, ("index_type", .text "IVF_FLAT"), ("params", .map [("nlist", .int 1024)])]

def searchParameters : Props := [metric, ("params", .map [("nprobe", .int 10)])]

/-! ## The service -/

/-- What is asked of a collection. -/
inductive CollectionCall where
  | createIndex (field : String) (parameters : Props)
  | load
  | upsert (row : Row)
  | flush
  | query (expression : String) (fields : List String)
  | search (embedding : List Number) (field : String) (parameters : Props) (limit : Int)
      (fields : List String)
  | count

namespace CollectionCall

/-- What a call is answered with. -/
def Reply : CollectionCall → Type
  | createIndex .. | load | upsert _ | flush => Unit
  | query .. => List Row
  | search .. => List (Row × Number)
  | count => Int

/-- The call as its name and its arguments. A row is not told. -/
def toDatum : CollectionCall → Datum
  | createIndex field parameters => .list [.text "create_index", .text field, .map parameters]
  | load => .list [.text "load"]
  | upsert _ => .list [.text "upsert"]
  | flush => .list [.text "flush"]
  | query expression fields => .list [.text "query", .text expression, ToDatum.toDatum fields]
  | search embedding field parameters limit fields =>
    .list [.text "search", ToDatum.toDatum [embedding], .text field, .map parameters, .int limit,
      ToDatum.toDatum fields]
  | count => .list [.text "num_entities"]

instance : ToDatum CollectionCall := ⟨toDatum⟩

end CollectionCall

/-- A vector database in which one collection is worked with. -/
structure VectorService (σ : Type) where
  connect : (host : String) → (port : Int) → Effect σ Unit
  disconnect : Effect σ Unit
  hasCollection : (name : String) → Effect σ Bool
  create : (name : String) → List Column → Effect σ Unit
  call : (c : CollectionCall) → Effect σ c.Reply
  note : Notice → σ → σ

end CodeAtlas.Records
