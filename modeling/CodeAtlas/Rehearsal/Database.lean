import CodeAtlas.Cypher.Client
import CodeAtlas.Text.Blank

/-!
# A database with a script

A database that knows no graph. It answers each statement with the next turn of a script, writes down
what it is sent, and answers with an empty table when the script has come to its end. A turn can also
be a failure, which happens when a statement is run or, if it is marked so, as soon as a session is
opened.
-/

namespace CodeAtlas

/-! ## Values in a database -/

/-- A property without a value is not stored. -/
def Props.stored (ps : Props) : Props := ps.filter fun p ↦ match p.2 with
  | .null => false
  | _ => true

/-- A node as a database gives it back. Its labels are a set. -/
def Node.stored (n : Node) : Node :=
  { n with labels := n.labels.eraseDups.mergeSort, properties := Props.stored n.properties }

def Relationship.stored (r : Relationship) : Relationship :=
  { r with properties := Props.stored r.properties }

namespace Value

mutual

/-- A value as a database gives it back. -/
def stored : Value → Value
  | plain d => plain d
  | node n => node n.stored
  | relationship r => relationship r.stored
  | path nodes relationships => path (nodes.map Node.stored) (relationships.map Relationship.stored)
  | list items => list (storedItems items)
  | tuple items => tuple (storedItems items)
  | map entries => map (storedEntries entries)

def storedItems : List Value → List Value
  | [] => []
  | v :: rest => stored v :: storedItems rest

def storedEntries : List (String × Value) → List (String × Value)
  | [] => []
  | (key, v) :: rest => (key, stored v) :: storedEntries rest

end

end Value

namespace Cypher

/-! ## The script -/

/-- What happens at the next statement. -/
inductive Turn where
  | table (t : Table)
  /-- `opening` says whether already the session cannot be opened. -/
  | failure (opening : Bool) (e : Fault)

/-- What a database is sent. -/
inductive Sent where
  | statement (mode : Mode) (s : Statement)
  | close

/-- What was sent, its text with single blanks only. -/
def Sent.toDatum : Sent → Datum
  | close => .list [.text "close"]
  | statement mode s =>
    .list [.text mode.name, .text (String.intercalate " " (Text.words s.text)),
      ToDatum.toDatum s.parameters]

instance : ToDatum Sent := ⟨Sent.toDatum⟩

structure ScriptedDatabase where
  script : List Turn
  /-- What it has been sent, in order. -/
  sent : List Sent
  /-- Has anyone tried to open a session? -/
  used : Bool
  notices : List Notice

namespace ScriptedDatabase

def new (script : List Turn) : ScriptedDatabase := ⟨script, [], false, []⟩

def openSession : Effect ScriptedDatabase Unit := do
  let db ← getThe ScriptedDatabase
  set { db with used := true }
  match db.script with
  | .failure true e :: rest =>
    set { db with used := true, script := rest }
    throw e
  | _ => pure ()

def run (mode : Mode) (s : Statement) : Effect ScriptedDatabase Table := do
  let db ← getThe ScriptedDatabase
  let db : ScriptedDatabase := { db with sent := db.sent ++ [Sent.statement mode s] }
  set { db with script := db.script.tail }
  match db.script with
  | [] => pure ⟨[], []⟩
  | .table t :: _ => pure t
  | .failure _ e :: _ => throw e

def close : Effect ScriptedDatabase Unit :=
  modify fun db ↦ { db with sent := db.sent ++ [.close] }

def note (n : Notice) (db : ScriptedDatabase) : ScriptedDatabase :=
  { db with notices := db.notices ++ [n] }

def driver : Driver ScriptedDatabase := ⟨openSession, run, close, note⟩

/-- Forgets what has been sent and said so far. -/
def forget (db : ScriptedDatabase) : ScriptedDatabase := { db with sent := [], notices := [] }

end ScriptedDatabase

end Cypher

end CodeAtlas
