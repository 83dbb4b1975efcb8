import CodeAtlas.CommandLine.Words
import CodeAtlas.Settings
import CodeAtlas.Text.DecimalDigit

/-!
# The commands

What can be asked for on the command line. Options that are left out have the values of the settings.
-/

namespace CodeAtlas.CommandLine

/-- How tools are offered. -/
inductive ToolTransport where
  | stdio | http
  deriving DecidableEq, Repr

def ToolTransport.name : ToolTransport → String
  | stdio => "stdio"
  | http => "http"

structure ServeOptions where
  transport : ToolTransport
  host : String
  port : Int
  /-- A directory to be indexed and watched meanwhile. -/
  watchRoot : Option String
  deriving DecidableEq, Repr

inductive Command where
  /-- Index a directory, and summarise its functions if asked to. -/
  | index (root : String) (enriches : Bool)
  | watch (root : String)
  | serve (options : ServeOptions)
  | api (host : String) (port : Int)
  deriving DecidableEq, Repr

def Command.name : Command → String
  | index .. => "index"
  | watch _ => "watch"
  | serve _ => "serve"
  | api .. => "api"

structure Arguments where
  logLevel : String
  graphBackend : Option String
  command : Command
  deriving DecidableEq, Repr

/-! ## Values -/

/-- The longest number that is read. -/
def maxDigits : Nat := 4300

/-- Blank characters, without the separators of files and records. -/
def isPadding (c : Char) : Bool := Text.isBlank c && !(28 ≤ c.toNat && c.toNat ≤ 31)

/-- A whole number in the digits of any script. Padding around it does not count, and underscores may
stand between digits. -/
def integer? (t : String) : Option Int := do
  let (negative, cs) := Settings.splitSign (Text.stripChars isPadding t).toList
  let digits ← (← Settings.withoutUnderscores cs).mapM Text.digitValue?
  if digits.isEmpty || maxDigits < digits.length then none
  else
    let n : Int := (digits.foldl (fun n d ↦ 10 * n + d) 0 : Nat)
    pure (if negative then -n else n)

def portOf (t : String) : Except Stop Int :=
  match integer? t with
  | some n => .ok n
  | none => .error (.misuse s!"no number: {t}")

def transportOf (t : String) : Except Stop ToolTransport :=
  match t with
  | "stdio" => .ok .stdio
  | "http" => .ok .http
  | _ => .error (.misuse s!"no transport: {t}")

def backendOf (t : String) : Except Stop String :=
  if t == "neo4j" || t == "json" then .ok t else .error (.misuse s!"no graph backend: {t}")

/-! ## Commands -/

def indexSwitches : List (Switch (String × Bool)) :=
  [.flag "--no-enrich" fun s ↦ (s.1, false)]

def serveSwitches : List (Switch ServeOptions) :=
  [.value "--transport" fun t s ↦ do pure { s with transport := ← transportOf t },
    .value "--host" fun t s ↦ .ok { s with host := t },
    .value "--port" fun t s ↦ do pure { s with port := ← portOf t },
    .value "--watch" fun t s ↦ .ok { s with watchRoot := some t }]

def apiSwitches : List (Switch (String × Int)) :=
  [.value "--host" fun t s ↦ .ok (t, s.2),
    .value "--port" fun t s ↦ do pure (s.1, ← portOf t)]

/-- The command of a name with the words behind it. -/
def commandOf (s : Settings) (name : String) (words : List String) : Except Stop (Command × Bool) :=
  match name with
  | "index" => do
    let ((root, enriches), leftOver) ←
      readAll indexSwitches [.word fun root s ↦ (root, s.2)] ("", true) words
    pure (.index root enriches, leftOver)
  | "watch" => do
    let (root, leftOver) ← readAll [] [.word fun root _ ↦ root] "" words
    pure (.watch root, leftOver)
  | "serve" => do
    let (options, leftOver) ← readAll serveSwitches [] ⟨.http, s.mcpHost, s.mcpPort, none⟩ words
    pure (.serve options, leftOver)
  | "api" => do
    let ((host, port), leftOver) ← readAll apiSwitches [] (s.apiHost, s.apiPort) words
    pure (.api host port, leftOver)
  | _ => .error (.misuse s!"no command: {name}")

/-- What is known before the command. -/
structure Draft where
  logLevel : String
  graphBackend : Option String
  command : Option Command

def switches : List (Switch Draft) :=
  [.value "--log-level" fun t s ↦ .ok { s with logLevel := t },
    .value "--graph-backend" fun t s ↦ do pure { s with graphBackend := some (← backendOf t) }]

/-- Reads a command line. -/
def Arguments.ofWords (s : Settings) (words : List String) : Except Stop Arguments := do
  let command (name : String) (words : List String) (d : Draft) : Except Stop (Draft × Bool) := do
    let (c, leftOver) ← commandOf s name words
    pure ({ d with command := some c }, leftOver)
  let (draft, leftOver) ← readAll switches [.command command] ⟨s.logLevel, none, none⟩ words
  match draft.command with
  | none => .error (.misuse "a command is missing")
  | some c =>
    if leftOver then .error (.misuse "unrecognized arguments")
    else pure ⟨draft.logLevel, draft.graphBackend, c⟩

/-! ## As plain data -/

def Command.toProps : Command → Props
  | index root enriches => [("root", .text root), ("no_enrich", .bool !enriches)]
  | watch root => [("root", .text root)]
  | serve o => [("transport", .text o.transport.name), ("host", .text o.host), ("port", .int o.port),
      ("watch_root", ToDatum.toDatum o.watchRoot)]
  | api host port => [("host", .text host), ("port", .int port)]

instance : ToDatum Arguments := ⟨fun a ↦ .map
  ([("log_level", .text a.logLevel), ("graph_backend", ToDatum.toDatum a.graphBackend),
    ("command", .text a.command.name)] ++ a.command.toProps)⟩

end CodeAtlas.CommandLine
