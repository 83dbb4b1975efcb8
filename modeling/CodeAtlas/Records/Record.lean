import CodeAtlas.Settings

/-!
# Function records

What is kept of a function apart from the graph: its summary and the embedding of the summary, under
the id of the function's node.
-/

namespace CodeAtlas

structure FunctionRecord where
  id : String
  name : String
  path : String
  summary : String
  embedding : Option (List Number)
  code : Option String
  startLine : Int
  endLine : Int
  deriving Inhabited

/-- A record found by similarity. -/
structure Hit where
  record : FunctionRecord
  score : Number

/-- A function as a search returns it, with its place in the result. -/
structure RankedFunction where
  id : String
  name : String
  path : String
  score : Number
  rank : Nat
  summary : String

namespace FunctionRecord

/-- The record without its embedding. -/
def toDatum (r : FunctionRecord) : Datum :=
  .map [("id", .text r.id), ("name", .text r.name), ("path", .text r.path),
    ("code", match r.code with
      | some c => .text c
      | none => .null),
    ("summary", .text r.summary), ("start_line", .int r.startLine), ("end_line", .int r.endLine)]

instance : ToDatum FunctionRecord := ⟨toDatum⟩

end FunctionRecord

instance : ToDatum Hit :=
  ⟨fun h ↦ .map [("record", h.record.toDatum), ("score", h.score.toDatum)]⟩

namespace RankedFunction

def toDatum (f : RankedFunction) : Datum :=
  .map [("id", .text f.id), ("name", .text f.name), ("path", .text f.path),
    ("score", f.score.toDatum), ("rank", .int f.rank), ("summary", .text f.summary)]

instance : ToDatum RankedFunction := ⟨toDatum⟩

end RankedFunction

end CodeAtlas
