import CodeAtlas.Cypher.Statement
import CodeAtlas.Effect
import CodeAtlas.Graph.Basic
import CodeAtlas.Lookup
import CodeAtlas.Settings

/-!
# The graph in a Cypher database

Every operation is one statement in a transaction of its own. Two merges of one key at the same time
can both miss it; then one of them violates a constraint and is tried once more, when the other one
is done. All other failures of the database become failures of a write or of a query; what is no
failure of the database is passed on.
-/

namespace CodeAtlas.Cypher

/-- What a transaction is for. -/
inductive Mode where
  | read | write
  /-- A statement outside a transaction. -/
  | auto
  deriving DecidableEq, Repr

def Mode.name : Mode → String
  | read => "read"
  | write => "write"
  | auto => "auto"

/-- The answer to a statement. -/
structure Table where
  columns : List String
  rows : List (List Value)

/-- A database that statements are sent to. -/
structure Driver (σ : Type) where
  openSession : Effect σ Unit
  run : Mode → Statement → Effect σ Table
  close : Effect σ Unit
  note : Notice → σ → σ

def clientName : String := "neo4j_client"

/-- The database that sessions are opened for. Without a name the server chooses. -/
def databaseName (given : Option String) (s : Settings) : Option String :=
  match given with
  | some name => if name.isEmpty then s.neo4jDatabase else some name
  | none => s.neo4jDatabase

namespace Table

/-- The first value of the first row. -/
def first? (t : Table) : Option Value := t.rows.head?.bind List.head?

/-- A row as a record. Of columns with one name the first one counts. -/
def recordOf (columns : List String) (row : List Value) : Except Fault Record :=
  columns.eraseDups.mapM fun name ↦
    match (columns.zip row).find? fun p ↦ p.1 == name with
    | some p => .ok p
    | none => .error (.mismatch (.noEntry name))

def records (t : Table) : Except Fault (List Record) := t.rows.mapM (recordOf t.columns)

end Table

namespace Driver

variable {σ : Type}

/-! ## Transactions -/

/-- Runs one statement in a session of its own. -/
def transact (d : Driver σ) (mode : Mode) (s : Statement) : Effect σ Table := do
  d.openSession
  d.run mode s

/-- How a failure of the database is told; `wrap` says whether it is one of a write or a query. -/
def databaseFault (wrap : String → Option Fault → Fault) (e : Fault) : Fault :=
  match e with
  | .outside .constraint m | .outside .cypherSyntax m | .outside .transient m => wrap m (some e)
  | .outside .unavailable m | .outside .expired m => wrap ("driver failure: " ++ m) (some e)
  | e => e

/-- A failure of a repeated write. -/
def repeatedFault (e : Fault) : Fault :=
  match e with
  | .outside .constraint m => .graphWrite ("constraint violation: " ++ m) (some e)
  | e => databaseFault .graphWrite e

/-- Runs a write; after a violated constraint, once more. -/
def write (d : Driver σ) (s : Statement) : Effect σ (Option Value) := do
  match ← (d.transact .write s).attempt with
  | .ok t => pure t.first?
  | .error (.outside .constraint _) => do
    let t ← (d.transact .write s).orFail repeatedFault
    pure t.first?
  | .error e => throw (databaseFault .graphWrite e)

/-- The records that a query answers with. -/
def read (d : Driver σ) (s : Statement) : Effect σ (List Record) :=
  (do
    let t ← d.transact .read s
    ofExcept t.records).orFail (databaseFault .graphQuery)

/-! ## Operations -/

/-- Makes sure that the constraints are there. One that cannot be made is reported. -/
def setup (d : Driver σ) : Effect σ Unit := do
  d.openSession
  for text in constraints do
    match ← (d.run .auto ⟨text, none⟩).attempt with
    | .ok _ => pure ()
    | .error e =>
      modify (d.note ⟨false, clientName, s!"Failed to create constraint {text}: {e.text}"⟩)

def mergeNode (d : Driver σ) (label : String) (key : Props) : Effect σ (Option Value) := do
  d.write (← ofExcept (Cypher.mergeNode label key))

def mergeRelationship (d : Driver σ) (type fromLabel : String) (fromKey : Props) (toLabel : String)
    (toKey attrs : Props) : Effect σ (Option Value) := do
  d.write (← ofExcept (Cypher.mergeRelationship type fromLabel fromKey toLabel toKey attrs))

def findRelationships (d : Driver σ) (type fromLabel : String) (fromKey attrs : Props) :
    Effect σ (List Record) := do
  d.read (← ofExcept (Cypher.findRelationships type fromLabel fromKey attrs))

/-- Deletes relationships; answers with their number, or zero if the database gives none. -/
def deleteRelationship (d : Driver σ) (type fromLabel : String) (fromKey : Props) (toLabel : String)
    (toKey attrs : Props) : Effect σ Value := do
  let s ← ofExcept (Cypher.deleteRelationship type fromLabel fromKey toLabel toKey attrs)
  let count ← d.write s
  pure ((count.filter Value.truthy).getD (.plain (.int 0)))

/-- The value of a column, which every record has to have. -/
def column (name : String) (r : Record) : Except Fault Value :=
  match Props.get? name r with
  | some v => .ok v
  | none => .error (.mismatch (.noEntry name))

/-- The value of a column in the first record, if there is one. -/
def firstOf (name : String) (records : List Record) : Except Fault (Option Value) :=
  match records with
  | [] => .ok none
  | r :: _ => (column name r).map some

def getNode (d : Driver σ) (label : String) (key : Props) : Effect σ (Option Value) := do
  let records ← d.read (← ofExcept (Cypher.getNode label key))
  ofExcept (firstOf "n" records)

def nodeById (d : Driver σ) (id : String) : Effect σ (Option Value) := do
  ofExcept (firstOf "n" (← d.read (Cypher.nodeById id)))

/-- Executes a query. -/
def query (d : Driver σ) (text : String) (parameters : Props) : Effect σ (List Record) :=
  d.read (.with text parameters)

def expandCalls (d : Driver σ) (functionId : String) : Effect σ (List Record) :=
  d.read (Cypher.expandCalls functionId)

/-- The counts in a table of names and numbers. -/
def countsOf (name : String) (records : List Record) : Except Fault (List (String × Value)) := do
  let entries ← records.mapM fun r ↦ do
    match ← column name r with
    | .plain d => pure (← Lookup.hashed d, ← column "count" r)
    | _ => .error (.mismatch (.wrongType "a name is not a text"))
  pure (Props.ofList entries)

/-- The numbers of nodes by label and of relationships by type. -/
def stats (d : Driver σ) : Effect σ (List (String × Value) × List (String × Value)) := do
  let nodes ← d.read countNodes
  let relationships ← d.read countRelationships
  let nodeCounts ← ofExcept (countsOf "label" nodes)
  let relationshipCounts ← ofExcept (countsOf "type" relationships)
  pure (nodeCounts, relationshipCounts)

def clear (d : Driver σ) : Effect σ Unit := do
  let _ ← d.write Cypher.clear

end Driver

end CodeAtlas.Cypher
