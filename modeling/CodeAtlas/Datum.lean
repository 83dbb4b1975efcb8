import CodeAtlas.Decimal.Shortest
import CodeAtlas.Text.Quoted

/-!
# Plain data

The values that documents, model answers and graph properties are made of. Integers and floats are
kept apart, because both are written back as they came; a map keeps its entries in the order of
first insertion. Calendar dates occur as property values of a database and have no JSON form of
their own.
-/

namespace CodeAtlas

/-- Plain data: scalars, lists, and maps with text keys in insertion order. -/
inductive Datum where
  | null
  | bool (b : Bool)
  | int (n : Int)
  | float (x : Float)
  | text (s : String)
  | date (day : String)
  | list (items : List Datum)
  | map (entries : List (String × Datum))
  deriving Inhabited

/-- Entries of a map, in order; no key occurs twice. -/
abbrev Props := List (String × Datum)

namespace Props

/-- Replaces the value of a key in place, or adds the entry at the end. -/
def insert {α : Type} (key : String) (value : α) : List (String × α) → List (String × α)
  | [] => [(key, value)]
  | (k, v) :: rest =>
    if k == key then (k, value) :: rest else (k, v) :: insert key value rest

def get? {α : Type} (key : String) : List (String × α) → Option α
  | [] => none
  | (k, v) :: rest => if k == key then some v else get? key rest

def erase {α : Type} (key : String) (entries : List (String × α)) : List (String × α) :=
  entries.filter fun e ↦ !(e.1 == key)

def contains {α : Type} (key : String) (entries : List (String × α)) : Bool :=
  entries.any fun e ↦ e.1 == key

/-- The map with the given entries, a later entry of a key replacing the value of an earlier one. -/
def ofList {α : Type} (entries : List (String × α)) : List (String × α) :=
  entries.foldl (fun acc e ↦ insert e.1 e.2 acc) []

/-- Puts an entry in front of the first one whose key is not smaller. -/
def insertSorted {α : Type} (e : String × α) : List (String × α) → List (String × α)
  | [] => [e]
  | x :: rest => if x.1 < e.1 then x :: insertSorted e rest else e :: x :: rest

/-- Entries sorted by key, by code point; equal keys keep their order. -/
def sorted {α : Type} (entries : List (String × α)) : List (String × α) :=
  entries.foldr insertSorted []

end Props

namespace Datum

/-- The value of a key, if this is a map that has it. -/
def get? (key : String) : Datum → Option Datum
  | .map entries => Props.get? key entries
  | _ => none

def text? : Datum → Option String
  | .text s => some s
  | _ => none

def items? : Datum → Option (List Datum)
  | .list items => some items
  | _ => none

def entries? : Datum → Option Props
  | .map entries => some entries
  | _ => none

/-- The items of a list; anything else has none. -/
def items (d : Datum) : List Datum := d.items?.getD []

/-- The entries of a map; anything else has none. -/
def entries (d : Datum) : Props := d.entries?.getD []

/-- Zero, the empty text, the empty collections, `false` and `null` are false; all else is true. -/
def truthy : Datum → Bool
  | .null => false
  | .bool b => b
  | .int n => n != 0
  | .float x => !(x == 0.0)
  | .text s => !s.isEmpty
  | .date _ => true
  | .list items => !items.isEmpty
  | .map entries => !entries.isEmpty

/-- The integer that a number or a truth value equals. -/
def integer? : Datum → Option Int
  | .bool b => some (if b then 1 else 0)
  | .int n => some n
  | .float x => Decimal.toInt? x
  | _ => none

mutual

/-- Equality of values: numbers and truth values compare by amount, whatever their kind, and maps
without regard to the order of their entries. -/
def same : Datum → Datum → Bool
  | .null, .null => true
  | .text s, .text t => s == t
  | .date s, .date t => s == t
  | .float x, .float y => x == y
  | .list xs, .list ys => sameItems xs ys
  | .map xs, .map ys => xs.length == ys.length && sameEntries xs ys
  | a, b => match a.integer?, b.integer? with
    | some m, some n => m == n
    | _, _ => false

def sameItems : List Datum → List Datum → Bool
  | [], [] => true
  | x :: xs, y :: ys => same x y && sameItems xs ys
  | _, _ => false

/-- Every entry of the first map has an equal one in the second. -/
def sameEntries : List (String × Datum) → List (String × Datum) → Bool
  | [], _ => true
  | (k, v) :: rest, ys => (match Props.get? k ys with
      | some w => same v w
      | none => false) && sameEntries rest ys

end

/-! ## The display form

How a value looks inside a message: `None`, `True`, numbers in their shortest text, texts as they
are at the top and quoted inside a collection. -/

/-- Names of the special floats in the display form. -/
def floatNames : Decimal.Names where
  nan := "nan"
  infinity := "inf"

def floatText (x : Float) : String := Decimal.text floatNames x

mutual

/-- The form inside a collection, where texts are quoted. -/
def quotedForm : Datum → String
  | .null => "None"
  | .bool b => if b then "True" else "False"
  | .int n => toString n
  | .float x => floatText x
  | .text s => Text.quoted s
  | .date d => d
  | .list items => "[" ++ String.intercalate ", " (quotedItems items) ++ "]"
  | .map entries => "\x7b" ++ String.intercalate ", " (quotedEntries entries) ++ "\x7d"

def quotedItems : List Datum → List String
  | [] => []
  | d :: rest => quotedForm d :: quotedItems rest

def quotedEntries : List (String × Datum) → List String
  | [] => []
  | (k, v) :: rest => (Text.quoted k ++ ": " ++ quotedForm v) :: quotedEntries rest

end

/-- The form in running text, where a text stands for itself. -/
def display : Datum → String
  | .text s => s
  | d => quotedForm d

end Datum

/-! ## Types with a form as plain data -/

/-- The form of a value as plain data. -/
class ToDatum (α : Type) where
  toDatum : α → Datum

namespace ToDatum

variable {α : Type}

instance : ToDatum Datum := ⟨id⟩

instance : ToDatum Unit := ⟨fun _ ↦ .null⟩

instance : ToDatum Bool := ⟨.bool⟩

instance : ToDatum Nat := ⟨fun n ↦ .int n⟩

instance : ToDatum Int := ⟨.int⟩

instance : ToDatum Float := ⟨.float⟩

instance : ToDatum String := ⟨.text⟩

/-- What is missing is null. -/
instance [ToDatum α] : ToDatum (Option α) := ⟨fun o ↦ (o.map toDatum).getD .null⟩

instance [ToDatum α] : ToDatum (List α) := ⟨fun xs ↦ .list (xs.map toDatum)⟩

/-- A table by name. -/
instance [ToDatum α] : ToDatum (List (String × α)) :=
  ⟨fun entries ↦ .map (entries.map fun e ↦ (e.1, toDatum e.2))⟩

end ToDatum

end CodeAtlas
