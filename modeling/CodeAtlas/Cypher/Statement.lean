import CodeAtlas.Datum
import CodeAtlas.Fault

/-!
# Cypher statements

Values are passed beside a statement as parameters. Labels, relationship types and property names
cannot be: they become part of its text. So each of them has to be a plain identifier, and a
statement is refused if one of them is not.
-/

namespace CodeAtlas.Cypher

/-! ## Identifiers -/

def isIdentifierStart (c : Char) : Bool :=
  ('A' ≤ c && c ≤ 'Z') || ('a' ≤ c && c ≤ 'z') || c == '_'

def isIdentifierPart (c : Char) : Bool := isIdentifierStart c || ('0' ≤ c && c ≤ '9')

/-- Letters, digits and underscores, no digit at the start; a line feed may follow. -/
def isIdentifier : List Char → Bool
  | [] => false
  | c :: rest =>
    let rest := if rest.getLast? == some '\n' then rest.dropLast else rest
    isIdentifierStart c && rest.all isIdentifierPart

/-- The value, if it may become part of a statement. -/
def identifier (value : String) : Except Fault String :=
  if isIdentifier value.toList then .ok value else .error (.invalidIdentifier value)

/-- The properties that an element has to have, as a part of its pattern; their values are those of
the parameter. -/
def propertyMap (parameter : String) (properties : Props) : Except Fault String :=
  if properties.isEmpty then .ok ""
  else do
    let fields ← properties.mapM fun (name, _) ↦ do
      let name ← identifier name
      pure (name ++ ": $" ++ parameter ++ "." ++ name)
    pure (" \x7b" ++ String.intercalate ", " fields ++ "\x7d")

/-! ## Statements -/

structure Statement where
  text : String
  /-- Absent if none are sent at all. -/
  parameters : Option Props

/-- A statement with parameters. -/
def Statement.with (text : String) (parameters : Props) : Statement := ⟨text, some parameters⟩

/-- The pattern of a node: a variable, a label and properties. -/
def nodePattern (variableName label parameter : String) (key : Props) : Except Fault String := do
  let label ← identifier label
  let properties ← propertyMap parameter key
  pure ("(" ++ variableName ++ ":" ++ label ++ properties ++ ")")

/-- The inside of a relationship's pattern. -/
def typePattern (type : String) (attrs : Props) : Except Fault String := do
  let type ← identifier type
  let properties ← propertyMap "attrs" attrs
  pure ("[r:" ++ type ++ properties ++ "]")

/-- A text of several lines. It starts and ends with a line break, and every line is indented. -/
def indented (lines : List String) : String :=
  String.join (lines.map fun line ↦ "\n        " ++ line) ++ "\n        "

def mergeNode (label : String) (key : Props) : Except Fault Statement := do
  let n ← nodePattern "n" label "key" key
  pure (.with ("MERGE " ++ n ++ " RETURN elementId(n)") [("key", .map key)])

/-- The parameters of a statement about a relationship. -/
def endParameters (fromKey toKey attrs : Props) : Props :=
  [("from_key", .map fromKey), ("to_key", .map toKey), ("attrs", .map attrs)]

def mergeRelationship (type fromLabel : String) (fromKey : Props) (toLabel : String)
    (toKey attrs : Props) : Except Fault Statement := do
  let a ← nodePattern "a" fromLabel "from_key" fromKey
  let b ← nodePattern "b" toLabel "to_key" toKey
  let r ← typePattern type attrs
  pure (.with (indented ["MERGE " ++ a, "MERGE " ++ b, "MERGE (a)-" ++ r ++ "->(b)",
      "RETURN elementId(r)"])
    (endParameters fromKey toKey attrs))

def findRelationships (type fromLabel : String) (fromKey attrs : Props) :
    Except Fault Statement := do
  let a ← nodePattern "a" fromLabel "from_key" fromKey
  let r ← typePattern type attrs
  pure (.with (indented ["MATCH " ++ a, "      -" ++ r ++ "->(b)",
      "RETURN properties(b) AS target, properties(r) AS properties"])
    [("from_key", .map fromKey), ("attrs", .map attrs)])

def deleteRelationship (type fromLabel : String) (fromKey : Props) (toLabel : String)
    (toKey attrs : Props) : Except Fault Statement := do
  let a ← nodePattern "a" fromLabel "from_key" fromKey
  let r ← typePattern type attrs
  let b ← nodePattern "b" toLabel "to_key" toKey
  pure (.with (indented ["MATCH " ++ a, "      -" ++ r ++ "->", "      " ++ b, "DELETE r",
      "RETURN count(r)"])
    (endParameters fromKey toKey attrs))

def getNode (label : String) (key : Props) : Except Fault Statement := do
  let n ← nodePattern "n" label "key" key
  pure (.with ("MATCH " ++ n ++ " RETURN n LIMIT 1") [("key", .map key)])

def nodeById (id : String) : Statement :=
  .with "MATCH (n) WHERE elementId(n) = $id RETURN n LIMIT 1" [("id", .text id)]

def expandCalls (functionId : String) : Statement :=
  .with (indented ["MATCH (a:Function)-[r:CALLS]->(b:Function)",
      "WHERE elementId(a) = $id OR elementId(b) = $id",
      "RETURN a AS source, r AS relationship, b AS target"])
    [("id", .text functionId)]

def countNodes : Statement :=
  .with "MATCH (n) UNWIND labels(n) AS label RETURN label, count(*) AS count" []

def countRelationships : Statement :=
  .with "MATCH ()-[r]->() RETURN type(r) AS type, count(*) AS count" []

def clear : Statement := .with "MATCH (n) DETACH DELETE n RETURN count(*)" []

/-- What keeps two nodes from having the same key. -/
def constraints : List String :=
  ["CREATE CONSTRAINT file_path_unique IF NOT EXISTS FOR (f:File) REQUIRE f.path IS UNIQUE",
    "CREATE CONSTRAINT function_name_path_unique IF NOT EXISTS FOR (f:Function) "
      ++ "REQUIRE (f.name, f.path) IS UNIQUE"]

end CodeAtlas.Cypher
