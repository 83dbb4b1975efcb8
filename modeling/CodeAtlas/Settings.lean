import CodeAtlas.Fault
import CodeAtlas.Json.Reader
import CodeAtlas.Path
import CodeAtlas.Text.Blank

/-!
# Settings

Everything that can be configured, with its default. Settings are given by name; a value may come as
a text and is then converted to the type of its field. Two fields hold lists, written as one text
with commas.
-/

namespace CodeAtlas

/-- A number as it was given: whole numbers are passed on without a point. -/
inductive Number where
  | whole (n : Int)
  | real (x : Float)
  deriving Inhabited

namespace Number

def toFloat : Number → Float
  | whole n => Float.ofInt n
  | real x => x

def toDatum : Number → Datum
  | whole n => .int n
  | real x => .float x

instance : ToDatum Number := ⟨toDatum⟩

end Number

structure Settings where
  /-- `neo4j` or `json`. -/
  graphBackend : String := "neo4j"
  graphStoragePath : Option String := some "data/graph_data.json"
  neo4jUri : String := "bolt://localhost:7687"
  neo4jUsername : String := "neo4j"
  neo4jPassword : String := "neo4j"
  neo4jDatabase : Option String := none
  milvusHost : String := "localhost"
  milvusPort : Int := 19530
  milvusCollectionName : String := "functions"
  milvusDimension : Int := 768
  embeddingProvider : String := "ollama"
  openaiApiKey : Option String := none
  openaiModel : String := "text-embedding-3-small"
  ollamaHost : String := "http://localhost:11434"
  ollamaModel : String := "nomic-embed-text"
  llmProvider : String := "openai"
  openaiChatModel : String := "gpt-4o-mini"
  ollamaChatModel : String := "llama3.1"
  llmTemperature : Number := .real 0.1
  llmTimeout : Number := .real 120.0
  sourceExtensions : String := ".ts,.tsx,.js,.jsx,.mjs,.cjs"
  defaultSourceExtension : String := ".ts"
  /-- Link calls to functions of the same file, too. -/
  linkLocalCalls : Bool := false
  maxFileSize : Int := 2097152
  maxConcurrentFiles : Int := 16
  debounceSeconds : Number := .real 1.0
  watchIgnorePatterns : String :=
    "(^|/)node_modules(/|$),(^|/)\\.git(/|$),(^|/)build(/|$),(^|/)dist(/|$),(^|/)logs(/|$),"
      ++ "\\.log$,\\.tmp$,\\.temp$"
  enrichmentTickSeconds : Number := .real 1.0
  enrichmentQueueMaxsize : Int := 10000
  maxCodeLength : Int := 16000
  queryMaxAttempts : Int := 3
  topKResults : Int := 10
  rerankEnabled : Bool := true
  rerankVectorWeight : Number := .real 0.6
  rerankBm25Weight : Number := .real 0.4
  mcpHost : String := "localhost"
  mcpPort : Int := 8000
  apiHost : String := "0.0.0.0"
  apiPort : Int := 3000
  logLevel : String := "INFO"
  logFile : String := "logs/app.log"

namespace Settings

/-- The defaults. -/
def standard : Settings := {}

/-! ## Fields by name -/

/-- How a field is read and replaced. -/
inductive Access where
  | text (get : Settings → String) (set : Settings → String → Settings)
  | optionalText (get : Settings → Option String) (set : Settings → Option String → Settings)
  | whole (get : Settings → Int) (set : Settings → Int → Settings)
  | real (get : Settings → Number) (set : Settings → Number → Settings)
  | flag (get : Settings → Bool) (set : Settings → Bool → Settings)

/-- Every field with its name. -/
def fields : List (String × Access) :=
  [("graph_backend", .text graphBackend fun s v ↦ { s with graphBackend := v }),
    ("graph_storage_path", .optionalText graphStoragePath
      fun s v ↦ { s with graphStoragePath := v }),
    ("neo4j_uri", .text neo4jUri fun s v ↦ { s with neo4jUri := v }),
    ("neo4j_username", .text neo4jUsername fun s v ↦ { s with neo4jUsername := v }),
    ("neo4j_password", .text neo4jPassword fun s v ↦ { s with neo4jPassword := v }),
    ("neo4j_database", .optionalText neo4jDatabase fun s v ↦ { s with neo4jDatabase := v }),
    ("milvus_host", .text milvusHost fun s v ↦ { s with milvusHost := v }),
    ("milvus_port", .whole milvusPort fun s v ↦ { s with milvusPort := v }),
    ("milvus_collection_name", .text milvusCollectionName
      fun s v ↦ { s with milvusCollectionName := v }),
    ("milvus_dimension", .whole milvusDimension fun s v ↦ { s with milvusDimension := v }),
    ("embedding_provider", .text embeddingProvider fun s v ↦ { s with embeddingProvider := v }),
    ("openai_api_key", .optionalText openaiApiKey fun s v ↦ { s with openaiApiKey := v }),
    ("openai_model", .text openaiModel fun s v ↦ { s with openaiModel := v }),
    ("ollama_host", .text ollamaHost fun s v ↦ { s with ollamaHost := v }),
    ("ollama_model", .text ollamaModel fun s v ↦ { s with ollamaModel := v }),
    ("llm_provider", .text llmProvider fun s v ↦ { s with llmProvider := v }),
    ("openai_chat_model", .text openaiChatModel fun s v ↦ { s with openaiChatModel := v }),
    ("ollama_chat_model", .text ollamaChatModel fun s v ↦ { s with ollamaChatModel := v }),
    ("llm_temperature", .real llmTemperature fun s v ↦ { s with llmTemperature := v }),
    ("llm_timeout", .real llmTimeout fun s v ↦ { s with llmTimeout := v }),
    ("source_extensions", .text sourceExtensions fun s v ↦ { s with sourceExtensions := v }),
    ("default_source_extension", .text defaultSourceExtension
      fun s v ↦ { s with defaultSourceExtension := v }),
    ("link_local_calls", .flag linkLocalCalls fun s v ↦ { s with linkLocalCalls := v }),
    ("max_file_size", .whole maxFileSize fun s v ↦ { s with maxFileSize := v }),
    ("max_concurrent_files", .whole maxConcurrentFiles
      fun s v ↦ { s with maxConcurrentFiles := v }),
    ("debounce_seconds", .real debounceSeconds fun s v ↦ { s with debounceSeconds := v }),
    ("watch_ignore_patterns", .text watchIgnorePatterns
      fun s v ↦ { s with watchIgnorePatterns := v }),
    ("enrichment_tick_seconds", .real enrichmentTickSeconds
      fun s v ↦ { s with enrichmentTickSeconds := v }),
    ("enrichment_queue_maxsize", .whole enrichmentQueueMaxsize
      fun s v ↦ { s with enrichmentQueueMaxsize := v }),
    ("max_code_length", .whole maxCodeLength fun s v ↦ { s with maxCodeLength := v }),
    ("query_max_attempts", .whole queryMaxAttempts fun s v ↦ { s with queryMaxAttempts := v }),
    ("top_k_results", .whole topKResults fun s v ↦ { s with topKResults := v }),
    ("rerank_enabled", .flag rerankEnabled fun s v ↦ { s with rerankEnabled := v }),
    ("rerank_vector_weight", .real rerankVectorWeight fun s v ↦ { s with rerankVectorWeight := v }),
    ("rerank_bm25_weight", .real rerankBm25Weight fun s v ↦ { s with rerankBm25Weight := v }),
    ("mcp_host", .text mcpHost fun s v ↦ { s with mcpHost := v }),
    ("mcp_port", .whole mcpPort fun s v ↦ { s with mcpPort := v }),
    ("api_host", .text apiHost fun s v ↦ { s with apiHost := v }),
    ("api_port", .whole apiPort fun s v ↦ { s with apiPort := v }),
    ("log_level", .text logLevel fun s v ↦ { s with logLevel := v }),
    ("log_file", .text logFile fun s v ↦ { s with logFile := v })]

/-- The present value of a field. -/
def Access.value (s : Settings) : Access → Datum
  | text get _ => .text (get s)
  | optionalText get _ => match get s with
    | some t => .text t
    | none => .null
  | whole get _ => .int (get s)
  | real get _ => (get s).toDatum
  | flag get _ => .bool (get s)

/-- All fields with their values. -/
def toProps (s : Settings) : Props := fields.map fun (name, access) ↦ (name, access.value s)

/-! ## Conversions -/

/-- Texts that stand for truth values, in small letters. -/
def flagOfText? (t : String) : Option Bool :=
  let t := Text.lowerCase t
  if ["1", "on", "t", "true", "y", "yes"].contains t then some true
  else if ["0", "off", "f", "false", "n", "no"].contains t then some false
  else none

/-- A number without the underscores that may stand between its digits. -/
def withoutUnderscores (digits : List Char) : Option (List Char) :=
  let rec check : List Char → Bool
    | '_' :: '_' :: _ => false
    | ['_'] => false
    | _ :: rest => check rest
    | [] => true
  if digits.head? == some '_' || !check digits then none else some (digits.filter (· != '_'))

def splitSign : List Char → Bool × List Char
  | '-' :: rest => (true, rest)
  | '+' :: rest => (false, rest)
  | cs => (false, cs)

/-- A whole number in digits, with a fraction of zeros allowed. -/
def wholeOfText? (t : String) : Option Int :=
  let (negative, cs) := splitSign (Text.trim t).toList
  let digits := cs.takeWhile (· != '.')
  let fraction := cs.drop digits.length
  let fits := fraction.isEmpty || (fraction.length > 1 && (fraction.drop 1).all (· == '0'))
  match withoutUnderscores digits with
  | some ds =>
    if fits && !ds.isEmpty && ds.all Char.isDigit then
      let n : Int := (ds.foldl (fun n c ↦ 10 * n + (c.toNat - 48)) 0 : Nat)
      some (if negative then -n else n)
    else none
  | none => none

/-- A decimal number with an optional exponent, or the name of a special float. -/
def realOfText? (t : String) : Option Float :=
  let (negative, cs) := splitSign (Text.trim t).toList
  let signed (x : Float) := if negative then -x else x
  let name := Text.lowerCase (String.ofList cs)
  if name == "inf" || name == "infinity" then some (signed (1.0 / 0.0))
  else if name == "nan" then some (0.0 / 0.0)
  else
    match withoutUnderscores cs with
    | none => none
    | some cs =>
      let whole := cs.takeWhile Char.isDigit
      let rest := cs.drop whole.length
      let (fraction, rest, pointed) := match rest with
        | '.' :: rest => (rest.takeWhile Char.isDigit, rest.dropWhile Char.isDigit, true)
        | rest => ([], rest, false)
      let value (ds : List Char) : Nat := ds.foldl (fun n c ↦ 10 * n + (c.toNat - 48)) 0
      let result (exponent : Int) : Float :=
        let e := exponent - fraction.length
        signed (Float.ofScientific (value (whole ++ fraction)) (e < 0) e.natAbs)
      if whole.isEmpty && (fraction.isEmpty || !pointed) then none
      else
        match rest with
        | [] => some (result 0)
        | c :: rest =>
          let (down, digits) := splitSign rest
          if (c == 'e' || c == 'E') && !digits.isEmpty && digits.all Char.isDigit then
            let e : Int := value digits
            some (result (if down then -e else e))
          else none

/-- Replaces a field by a value that is converted to the field's type. -/
def Access.convert (s : Settings) : Access → Datum → Option Settings
  | text _ set, .text t => some (set s t)
  | optionalText _ set, .text t => some (set s (some t))
  | optionalText _ set, .null => some (set s none)
  | whole _ set, .text t => (wholeOfText? t).map (set s)
  | whole _ set, d => d.integer?.map (set s)
  | real _ set, .text t => (realOfText? t).map fun x ↦ set s (.real x)
  | real _ set, .float x => some (set s (.real x))
  | real _ set, d => d.integer?.map fun n ↦ set s (.real (Float.ofInt n))
  | flag _ set, .text t => (flagOfText? t).map (set s)
  | flag _ set, .bool b => some (set s b)
  | flag _ set, .int n => if n == 0 || n == 1 then some (set s (n == 1)) else none
  | flag _ set, .float x => if x == 0.0 || x == 1.0 then some (set s (x == 1.0)) else none
  | _, _ => none

/-- The settings with the given values; names that no field has are ignored. -/
def ofProps (values : Props) : Except Fault Settings :=
  fields.foldlM (fun s (name, access) ↦
    match Props.get? name values with
    | none => pure s
    | some d =>
      match access.convert s d with
      | some s => pure s
      | none => .error (.invalidSetting name)) standard

/-- Replaces a field by a value of its own type; other values are ignored. -/
def Access.assign (s : Settings) : Access → Datum → Settings
  | text _ set, .text t => set s t
  | optionalText _ set, .text t => set s (some t)
  | optionalText _ set, .null => set s none
  | whole _ set, .int n => set s n
  | real _ set, .int n => set s (.whole n)
  | real _ set, .float x => set s (.real x)
  | flag _ set, .bool b => set s b
  | flag _ set, .int n => set s (n != 0)
  | _, _ => s

/-- Replaces fields by values that have the right type already. -/
def assign (s : Settings) (values : Props) : Settings :=
  fields.foldl (fun s (name, access) ↦
    match Props.get? name values with
    | some d => access.assign s d
    | none => s) s

/-! ## Lists -/

/-- The items of a text with commas, trimmed; empty ones are dropped. -/
def items (t : String) : List String :=
  ((Text.splitRuns (· == ',') [] t.toList).map fun cs ↦ Text.trim (String.ofList cs)).filter
    fun item ↦ !item.isEmpty

def sourceExtensionList (s : Settings) : List String := items s.sourceExtensions

/-- The given extensions, or those of the settings if none are given. -/
def extensionsOr (s : Settings) (given : List String) : List String :=
  if given.isEmpty then s.sourceExtensionList else given

def watchIgnorePatternList (s : Settings) : List String := items s.watchIgnorePatterns

/-- The extensions of sources, and the one that imports are completed with. -/
def extensions (s : Settings) : Path.Extensions := ⟨s.sourceExtensionList, s.defaultSourceExtension⟩

/-- The directory of the log file. -/
def logDirectory (s : Settings) : String :=
  let parts := (Path.pieces s.logFile.toList).filter fun p ↦ !Path.isIdle p
  let directory := Path.anchor s.logFile.toList
    ++ ['/'].intercalate parts.dropLast
  if directory.isEmpty then "." else String.ofList directory

end Settings

end CodeAtlas
