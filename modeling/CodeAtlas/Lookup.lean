import CodeAtlas.Datum
import CodeAtlas.Fault

/-!
# Looking into data of unknown shape

A document or a reply need not have the shape that is expected of it. These functions take what they
need and fail, with the kind of mismatch, where it is not there.
-/

namespace CodeAtlas.Lookup

def wrongType {α : Type} (text : String) : Except Fault α := .error (.mismatch (.wrongType text))

/-- What messages call the type of a value. -/
def typeName : Datum → String
  | .null => "NoneType"
  | .bool _ => "bool"
  | .int _ => "int"
  | .float _ => "float"
  | .text _ => "str"
  | .date _ => "date"
  | .list _ => "list"
  | .map _ => "dict"

/-- The value of a key. -/
def field (key : String) : Datum → Except Fault Datum
  | .map entries =>
    match Props.get? key entries with
    | some d => .ok d
    | none => .error (.mismatch (.noEntry key))
  | .list _ => wrongType "list indices must be integers or slices, not str"
  | .text _ => wrongType "string indices must be integers, not 'str'"
  | d => wrongType s!"'{typeName d}' object is not subscriptable"

/-- The entries of a map; `operation` is what asks for them. -/
def entries (operation : String) : Datum → Except Fault Props
  | .map es => .ok es
  | d => .error (.mismatch (.noOperation s!"'{typeName d}' object has no attribute '{operation}'"))

/-- The number of entries or items. -/
def size : Datum → Except Fault Nat
  | .map es => .ok es.length
  | .list items => .ok items.length
  | .text s => .ok s.length
  | d => wrongType s!"object of type '{typeName d}' has no len()"

/-- Does a text occur as a part of another one? -/
def occursIn (part : List Char) : List Char → Bool
  | [] => part.isEmpty
  | c :: rest => part.isPrefixOf (c :: rest) || occursIn part rest

/-- Is there an entry, an item or a part of this name? -/
def holds (key : String) : Datum → Except Fault Bool
  | .map es => .ok (Props.contains key es)
  | .list items => .ok (items.any fun d ↦ d.same (.text key))
  | .text s => .ok (occursIn key.toList s.toList)
  | d => wrongType s!"argument of type '{typeName d}' is not iterable"

/-- Sets an entry. -/
def put (key : String) (value : Datum) : Datum → Except Fault Datum
  | .map es => .ok (.map (Props.insert key value es))
  | .list _ => wrongType "list indices must be integers or slices, not str"
  | d => wrongType s!"'{typeName d}' object does not support item assignment"

/-- What a loop over the value goes through. -/
def items : Datum → Except Fault (List Datum)
  | .list ds => .ok ds
  | .text s => .ok (s.toList.map fun c ↦ .text (String.singleton c))
  | .map es => .ok (es.map fun e ↦ .text e.1)
  | d => wrongType s!"'{typeName d}' object is not iterable"

/-- A value as the key of a table. -/
def hashed : Datum → Except Fault String
  | .list _ => wrongType "unhashable type: 'list'"
  | .map _ => wrongType "unhashable type: 'dict'"
  | d => .ok d.display

/-- The integer that counts places, if the value is one that can. -/
def place? : Datum → Option Int
  | .int n => some n
  | .bool b => some (if b then 1 else 0)
  | _ => none

/-- The item at a place, which is counted from the end if it is negative. -/
def itemAt (kind : String) (index : Datum) (ds : List Datum) : Except Fault Datum :=
  match place? index with
  | none => wrongType s!"{kind} indices must be integers or slices, not {typeName index}"
  | some n =>
    let place := if n < 0 then n + ds.length else n
    match ds[place.toNat]?, decide (0 ≤ place) with
    | some d, true => .ok d
    | _, _ => .error (.mismatch (.outOfRange s!"{kind} index out of range"))

/-- The value at an index, which is a key or a place. All keys of a map are texts. -/
def item (index : Datum) : Datum → Except Fault Datum
  | .map es =>
    match index with
    | .text key => field key (.map es)
    | _ => do .error (.mismatch (.noEntry (← hashed index)))
  | .list ds => itemAt "list" index ds
  | .text s => itemAt "string" index (s.toList.map fun c ↦ .text (String.singleton c))
  | d => wrongType s!"'{typeName d}' object is not subscriptable"

/-- Two items that stand for a key and its value; `place` is where they are found. -/
def entryOf (place : Nat) (d : Datum) : Except Fault (String × Datum) :=
  let what := s!"dictionary update sequence element #{place}"
  match items d with
  | .error _ => wrongType s!"cannot convert {what} to a sequence"
  | .ok [key, value] => do pure (← hashed key, value)
  | .ok ds => .error (.mismatch (.badValue s!"{what} has length {ds.length}; 2 is required"))

/-- A copy as a map. -/
def asProps : Datum → Except Fault Props
  | .map es => .ok es
  | d => do
    let pairs ← (← items d).zipIdx.mapM fun (x, place) ↦ entryOf place x
    pure (Props.ofList pairs)

end CodeAtlas.Lookup
