import CodeAtlas.Indexing.Directory
import CodeAtlas.Query.Response
import CodeAtlas.Service.Overview

/-!
# Tools for a language model

Each tool answers with a text: JSON where the model is to read on, prose where it is to report. A
tool never fails; what goes wrong is reported and told to the model.
-/

namespace CodeAtlas

/-- A tool with its arguments. -/
inductive Tool where
  | similarFunctions (description : String) (limit : Option Int)
  | functionCallers (id : String)
  | functionCallees (id : String)
  | functionDetails (id : String)
  | queryCodebase (query : String)
  | answerQuestion (query : String)
  | indexCodebase (root : Option String)
  | systemStats
  deriving DecidableEq, Repr

namespace Tool

open Program

def serverName : String := "mcp_server"

/-! ## Arguments -/

/-- The arguments do not fit the tool. -/
def badArguments : Fault := .mismatch (.wrongType "unexpected or missing arguments")

def onlyText (key : String) (arguments : Props) : Except Fault String :=
  match arguments with
  | [(k, .text t)] => if k == key then .ok t else .error badArguments
  | _ => .error badArguments

/-- The number of results that a search is asked for. -/
def limitOf (arguments : Props) : Except Fault (Option Int) :=
  match Props.get? "top_k" arguments with
  | none => .ok (some 10)
  | some .null => .ok none
  | some d =>
    match d.integer? with
    | some k => .ok (some k)
    | none => .error badArguments

/-- The tool of a name with the given arguments. -/
def ofArguments (name : String) (arguments : Props) : Except Fault Tool :=
  match name with
  | "similar_functions" => do
    let limit ← limitOf arguments
    let description ← onlyText "function_description" (Props.erase "top_k" arguments)
    pure (.similarFunctions description limit)
  | "function_callers" => .functionCallers <$> onlyText "function_id" arguments
  | "function_callees" => .functionCallees <$> onlyText "function_id" arguments
  | "function_details" => .functionDetails <$> onlyText "function_id" arguments
  | "query_codebase" => .queryCodebase <$> onlyText "query" arguments
  | "answer_question" => .answerQuestion <$> onlyText "query" arguments
  | "index_codebase" =>
    match arguments with
    | [] => .ok (.indexCodebase none)
    | [("root_path", .null)] => .ok (.indexCodebase none)
    | _ => (fun root ↦ .indexCodebase (some root)) <$> onlyText "root_path" arguments
  | "get_system_stats" => if arguments.isEmpty then .ok .systemStats else .error badArguments
  | _ => .error badArguments

/-! ## Answers -/

/-- What the tool does, as it is told when it fails. -/
def activity : Tool → String
  | similarFunctions .. => "finding similar functions"
  | functionCallers _ => "finding function callers"
  | functionCallees _ => "finding function callees"
  | functionDetails _ => "getting function details"
  | queryCodebase _ => "querying codebase"
  | answerQuestion _ => "answering question"
  | indexCodebase _ => "indexing codebase"
  | systemStats => "getting system stats"

def pretty (d : Datum) : String := Json.write .pretty d

def foundForm (f : RankedFunction) : Datum :=
  .map [("id", .text f.id), ("name", .text f.name), ("path", .text f.path)]

def nodeForm (n : Node) : Datum :=
  .map [("id", .text n.id), ("name", n.property "name"), ("path", n.property "path")]

/-- What indexing a directory came to. -/
def indexReport (registrations : List Indexing.Registration) (stats : GraphStats) : String :=
  let total (f : Indexing.Registration → Nat) : Nat := registrations.foldl (fun n r ↦ n + f r) 0
  let count (counts : List (String × Nat)) : Nat := counts.foldl (fun n c ↦ n + c.2) 0
  String.intercalate "\n"
    [s!"Indexed {registrations.length} files",
      s!"Functions: {total (·.functions)}",
      s!"Queued for enrichment: {total (·.enqueued)}",
      s!"Graph nodes: {count stats.nodes}",
      s!"Graph relationships: {count stats.relationships}"]

/-- The value of a number among the record statistics, or a substitute. -/
def recordFigure (records : Props) (key substitute : String) : String :=
  match Props.get? key records with
  | some d => d.display
  | none => substitute

/-- The numbers as a text. The records are left out if they could not be counted. -/
def statsReport (o : Overview) : String :=
  let line (name : String) (value : String) := s!"   {name}: {value}\n"
  let counts (cs : List (String × Nat)) := String.join (cs.map fun c ↦ line ("- " ++ c.1) (toString c.2))
  let records := if Props.contains "error" o.records then ""
    else "\nFunction records:\n"
      ++ line "Collection" (recordFigure o.records "collection_name" "N/A")
      ++ line "Entities" (recordFigure o.records "num_entities" "0")
  "System Statistics\n" ++ String.ofList (List.replicate 50 '=') ++ "\n\n"
    ++ "Graph:\n" ++ counts o.graph.nodes ++ counts o.graph.relationships
    ++ records
    ++ "\nEnrichment queue:\n"
    ++ line "Pending" (toString o.queue.pending)
    ++ line "Processed" (toString o.queue.processed)
    ++ line "Failed" (toString o.queue.failed)

/-- What the tool does, which may fail. -/
def perform (query : QueryRules) (index : Indexing.IndexRules) (files : FileTree) :
    Tool → Program String
  | similarFunctions description limit => do
    let found ← Search.search query.search description limit
    pure (pretty (.list (found.map foundForm)))
  | functionCallers id => do pure (pretty (.list ((← CallContext.find id).callers.map nodeForm)))
  | functionCallees id => do pure (pretty (.list ((← CallContext.find id).callees.map nodeForm)))
  | functionDetails id => do
    match ← request (.findRecord id) with
    | some record => pure (pretty record.toDatum)
    | none => pure s!"Function with ID {id} not found"
  | queryCodebase text => do pure (pretty (← Response.find query text none).toDatum)
  | answerQuestion text => do pure (← Response.answer query text).2
  | indexCodebase root => do
    let root := match root with
      | some r => if r.isEmpty then "." else r
      | none => "."
    match ← Indexing.registerTree index files root with
    | [] => pure s!"No files found to index in {root}"
    | registrations => pure (indexReport registrations (← request .graphStats))
  | systemStats => do pure (statsReport (← Overview.find))

/-- Runs a tool; a failure is told in the answer. -/
def run (query : QueryRules) (index : Indexing.IndexRules) (files : FileTree) (t : Tool) :
    Program String := do
  match ← (t.perform query index files).attempt with
  | .ok text => pure text
  | .error e =>
    match t, e with
    | .queryCodebase _, .generation .. =>
      warn serverName e.text
      pure s!"Could not produce a valid query: {e.message}"
    | t, e =>
      report serverName s!"Error {t.activity}: {e.text}"
      pure s!"Error {t.activity}: {e.text}"

end Tool

end CodeAtlas
