import CodeAtlas.Query.Response
import CodeAtlas.Service.Overview
import CodeAtlas.Text.Url

/-!
# The HTTP interface

Six routes: a sign of life, the search for functions, one function with its callers and callees, the
result for a query, the answer to a question, and the numbers. A request whose form is wrong is
refused before anything is asked for; what goes wrong later is reported and answered with its text.
-/

namespace CodeAtlas

structure HttpRequest where
  method : String
  url : String
  body : Option Datum

structure HttpReply where
  status : Nat
  /-- Absent if the form of the request was refused. -/
  body : Option Datum

namespace Http

open Program

def serverName : String := "api_server"

/-! ## Routes -/

inductive Route where
  | health | search | function (id : String) | plan | answer | stats
  deriving DecidableEq, Repr

/-- The method that a route is for. -/
def Route.method : Route → String
  | plan | answer => "POST"
  | _ => "GET"

def Route.ofPath? (path : String) : Option Route :=
  match Path.pieces path.toList with
  | [[], segment] =>
    if segment == "health".toList then some .health
    else if segment == "stats".toList then some .stats
    else none
  | [[], first, second] =>
    if first == "functions".toList then
      if second == "search".toList then some .search
      else if second.isEmpty then none
      else some (.function (String.ofList second))
    else if first == "query".toList then
      if second == "plan".toList then some .plan
      else if second == "answer".toList then some .answer
      else none
    else none
  | _ => none

/-! ## Replies -/

mutual

/-- A body has no dates of its own: they are sent as texts. -/
def withTextDates : Datum → Datum
  | .date d => .text d
  | .list items => .list (withTextDatesAll items)
  | .map entries => .map (withTextDatesIn entries)
  | d => d

def withTextDatesAll : List Datum → List Datum
  | [] => []
  | d :: rest => withTextDates d :: withTextDatesAll rest

def withTextDatesIn : List (String × Datum) → List (String × Datum)
  | [] => []
  | (k, d) :: rest => (k, withTextDates d) :: withTextDatesIn rest

end

def ok (body : Datum) : HttpReply := ⟨200, some (withTextDates body)⟩

/-- The reply that says what went wrong. -/
def failed (status : Nat) (detail : Datum) : HttpReply := ⟨status, some (.map [("detail", detail)])⟩

/-- The form of the request is wrong. -/
def refused : HttpReply := ⟨422, none⟩

/-- Reports a failure and answers with its text. -/
def reported (what : String) (e : Fault) : Program HttpReply := do
  report serverName s!"Error {what}: {e.text}"
  pure (failed 500 (.text e.text))

/-- Runs a program and replies with its result. -/
def replyWith (what : String) (p : Program Datum) : Program HttpReply := do
  match ← p.attempt with
  | .ok d => pure (ok d)
  | .error e => reported what e

/-! ## Forms -/

/-- A query as it is sent. -/
structure QueryForm where
  query : String
  limit : Option Int

/-- Reads an optional whole number; a text may stand for one. -/
def limitOf? : Datum → Option (Option Int)
  | .null => some none
  | .text t => (Settings.wholeOfText? t).map some
  | d => d.integer?.map some

def QueryForm.ofBody? (body : Option Datum) : Option QueryForm :=
  match body with
  | some (.map entries) =>
    match Props.get? "query" entries, limitOf? ((Props.get? "top_k" entries).getD .null) with
    | some (.text query), some limit => some ⟨query, limit⟩
    | _, _ => none
  | _ => none

def QueryForm.ofUrl? (url : String) : Option QueryForm := do
  let query ← Text.Url.parameter? "q" url
  if query.isEmpty then none
  else
    match Text.Url.parameter? "top_k" url with
    | none => some ⟨query, none⟩
    | some t => (Settings.wholeOfText? t).map fun k ↦ ⟨query, some k⟩

/-! ## What the routes do -/

def searchFunctions (rules : QueryRules) (form : QueryForm) : Program HttpReply :=
  replyWith "searching functions" do
    let found ← Search.search rules.search form.query form.limit
    pure (.map [("results", .list (found.map RankedFunction.toDatum)),
      ("total_results", .int found.length)])

/-- A record together with the functions around it. -/
def functionForm (record : FunctionRecord) (context : CallContext) : Datum :=
  match record.toDatum with
  | .map entries =>
    .map (entries ++ [("callers", .list (context.callers.map Node.toDatum)),
      ("callees", .list (context.callees.map Node.toDatum))])
  | d => d

def getFunction (id : String) : Program HttpReply := do
  let lookup : Program (Option FunctionRecord × CallContext) := do
    let record ← request (.findRecord id)
    let context ← CallContext.find id
    pure (record, context)
  match ← lookup.attempt with
  | .error e => reported s!"getting function {id}" e
  | .ok (none, _) => pure (failed 404 (.text "Function not found"))
  | .ok (some record, context) => pure (ok (functionForm record context))

/-- The result for a query. A query for which no graph query could be made is the sender's. -/
def planQuery (rules : QueryRules) (form : QueryForm) : Program HttpReply := do
  match ← (Response.find rules form.query form.limit).attempt with
  | .ok r => pure (ok r.toDatum)
  | .error (.generation query attempts cause) =>
    let e := Fault.generation query attempts cause
    warn serverName e.text
    pure (failed 422 (.map [("message", .text e.message),
      ("attempts", .list (attempts.map Attempt.toDatum))]))
  | .error e => reported "planning query" e

def answerQuery (rules : QueryRules) (form : QueryForm) : Program HttpReply :=
  replyWith "answering query" do
    let (r, text) ← Response.answer rules form.query
    pure (.map (Props.insert "answer" (.text text) r.toProps))

/-- Replies to a request that fits a route. -/
def serve (rules : QueryRules) (r : HttpRequest) : Route → Program HttpReply
  | .health => pure (ok (.map [("status", .text "ok")]))
  | .search =>
    match QueryForm.ofUrl? r.url with
    | some form => searchFunctions rules form
    | none => pure refused
  | .function id => getFunction id
  | .plan =>
    match QueryForm.ofBody? r.body with
    | some form => planQuery rules form
    | none => pure refused
  | .answer =>
    match QueryForm.ofBody? r.body with
    | some form => answerQuery rules form
    | none => pure refused
  | .stats => replyWith "getting stats" do pure (← Overview.find).toDatum

/-- A path that would fit without the slashes behind it. -/
def redirects (path : String) : Bool :=
  let trimmed := String.ofList (path.toList.reverse.dropWhile (· == '/')).reverse
  path.toList.getLast? == some '/' && (Route.ofPath? trimmed).isSome

/-- Replies to a request. -/
def handle (rules : QueryRules) (r : HttpRequest) : Program HttpReply :=
  let path := Text.Url.path r.url
  match Route.ofPath? path with
  | some route =>
    if route.method == r.method then serve rules r route
    else pure (failed 405 (.text "Method Not Allowed"))
  | none =>
    if redirects path then pure ⟨307, some (.text "")⟩
    else pure (failed 404 (.text "Not Found"))

end Http

end CodeAtlas
