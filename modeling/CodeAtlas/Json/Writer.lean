import CodeAtlas.Datum

/-!
# Writing JSON

A value is written on one line, with a space after each comma and colon, or spread over lines with
a fixed indent. Characters beyond ASCII are written as they are or as `\u` escapes of their UTF-16
units. The special floats, which JSON lacks, are written by name, and a date as its text.
-/

namespace CodeAtlas.Json

open Text (hexDigits)

/-- The choices a writer has. -/
structure Style where
  /-- Escape everything beyond printable ASCII. -/
  ascii : Bool
  /-- Order the entries of maps by key. -/
  sortKeys : Bool
  /-- The width of one level of indentation; one line if absent. -/
  indent : Option Nat
  itemSeparator : String
  keySeparator : String

/-- One line, plain characters, sorted keys: the form that is hashed. -/
def Style.canonical : Style where
  ascii := false
  sortKeys := true
  indent := none
  itemSeparator := ", "
  keySeparator := ": "

/-- One line with escapes. -/
def Style.line : Style where
  ascii := true
  sortKeys := false
  indent := none
  itemSeparator := ", "
  keySeparator := ": "

/-- Two spaces to a level, with escapes: the form shown to a reader. -/
def Style.pretty : Style where
  ascii := true
  sortKeys := false
  indent := some 2
  itemSeparator := ","
  keySeparator := ": "

/-- Two spaces to a level, plain characters: the form kept in a file. -/
def Style.file : Style := { Style.pretty with ascii := false }

/-- No blanks at all, with escapes and sorted keys. -/
def Style.compact : Style where
  ascii := true
  sortKeys := true
  indent := none
  itemSeparator := ","
  keySeparator := ":"

/-! ## Texts -/

def unicodeEscape (unit : Nat) : List Char := '\\' :: 'u' :: hexDigits 4 unit

/-- The escape of a character by its UTF-16 units. -/
def unitEscapes (c : Char) : List Char :=
  let n := c.toNat
  if n < 0x10000 then unicodeEscape n
  else
    unicodeEscape (0xD800 + (n - 0x10000) / 0x400)
      ++ unicodeEscape (0xDC00 + (n - 0x10000) % 0x400)

/-- One character of a text. -/
def writeChar (ascii : Bool) (c : Char) : List Char :=
  if c == '"' then ['\\', '"']
  else if c == '\\' then ['\\', '\\']
  else if c == '\n' then ['\\', 'n']
  else if c == '\r' then ['\\', 'r']
  else if c == '\t' then ['\\', 't']
  else if c == '\x08' then ['\\', 'b']
  else if c == '\x0c' then ['\\', 'f']
  else if c.toNat < 32 then unicodeEscape c.toNat
  else if ascii && 126 < c.toNat then unitEscapes c
  else [c]

def writeText (ascii : Bool) (s : String) : List Char :=
  '"' :: (s.toList.flatMap (writeChar ascii) ++ ['"'])

/-! ## Values -/

/-- Names of the special floats. -/
def floatNames : Decimal.Names where
  nan := "NaN"
  infinity := "Infinity"

/-- A line break followed by the indentation of a level, if the style has one. -/
def lineBreak (style : Style) (level : Nat) : List Char :=
  match style.indent with
  | some width => '\n' :: List.replicate (width * level) ' '
  | none => []

/-- Puts a separator and a line break between written items. -/
def joinItems (style : Style) (level : Nat) : List (List Char) → List Char
  | [] => []
  | [item] => item
  | item :: rest =>
    item ++ style.itemSeparator.toList ++ lineBreak style level ++ joinItems style level rest

/-- Brackets around written items; nothing but the brackets if there are none. -/
def enclose (style : Style) (level : Nat) (opening closing : Char) (items : List (List Char)) :
    List Char :=
  if items.isEmpty then [opening, closing]
  else
    opening :: (lineBreak style (level + 1) ++ joinItems style (level + 1) items
      ++ lineBreak style level ++ [closing])

mutual

def writeAt (style : Style) (level : Nat) : Datum → List Char
  | .null => "null".toList
  | .bool b => (if b then "true" else "false").toList
  | .int n => (toString n).toList
  | .float x => (Decimal.text floatNames x).toList
  | .text s => writeText style.ascii s
  | .date d => writeText style.ascii d
  | .list items => enclose style level '[' ']' (writeItems style (level + 1) items)
  | .map entries =>
    let written := writeEntries style (level + 1) entries
    let ordered := if style.sortKeys then Props.sorted written else written
    enclose style level '\x7b' '\x7d' (ordered.map Prod.snd)

def writeItems (style : Style) (level : Nat) : List Datum → List (List Char)
  | [] => []
  | d :: rest => writeAt style level d :: writeItems style level rest

/-- Each entry with its key, so that the writer can still order them. -/
def writeEntries (style : Style) (level : Nat) :
    List (String × Datum) → List (String × List Char)
  | [] => []
  | (k, v) :: rest =>
    (k, writeText style.ascii k ++ style.keySeparator.toList ++ writeAt style level v)
      :: writeEntries style level rest

end

def write (style : Style) (d : Datum) : String := String.ofList (writeAt style 0 d)

mutual

/-- Can the value be written without a stand-in for a date? -/
def isWritable : Datum → Bool
  | .date _ => false
  | .list items => areWritable items
  | .map entries => entriesWritable entries
  | _ => true

def areWritable : List Datum → Bool
  | [] => true
  | d :: rest => isWritable d && areWritable rest

def entriesWritable : List (String × Datum) → Bool
  | [] => true
  | (_, v) :: rest => isWritable v && entriesWritable rest

end

end CodeAtlas.Json
