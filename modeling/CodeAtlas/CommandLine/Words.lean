import CodeAtlas.Datum

/-!
# The words of a command line

A word is plain or begins with a hyphen and is an option. An option may be shortened as long as it is
clear which one is meant, and its value stands behind an equals sign or is the next word. Two hyphens
alone end the options: whatever follows is plain.

First of all every option has to be clear. Then the words are read one by one into a state, so the
first word that stops the reading decides how it ends.
-/

namespace CodeAtlas.CommandLine

/-- Why no arguments come of the words. -/
inductive Stop where
  /-- Someone asked for help. -/
  | help
  | misuse (why : String)
  deriving DecidableEq, Repr

def Stop.exitCode : Stop → Nat
  | help => 0
  | misuse _ => 2

/-- An option that changes a state of type `σ`. -/
inductive Switch (σ : Type) where
  | help
  | flag (name : String) (set : σ → σ)
  | value (name : String) (set : String → σ → Except Stop σ)

def Switch.name {σ : Type} : Switch σ → String
  | help => "--help"
  | flag name _ | value name _ => name

/-- A place for a plain word. -/
inductive Place (σ : Type) where
  | word (set : String → σ → σ)
  /-- A command, which takes all the words behind it; it also says whether some were left over. -/
  | command (set : String → List String → σ → Except Stop (σ × Bool))

/-! ## Kinds of words -/

inductive Word (σ : Type) where
  | plain
  | terminator
  | option (s : Switch σ) (attached : Option String)
  | ambiguous
  | unknown

def isDigits (cs : List Char) : Bool := !cs.isEmpty && cs.all Char.isDigit

/-- A hyphen and a number, perhaps with a fraction. -/
def isNegativeNumber : List Char → Bool
  | '-' :: cs =>
    let whole := cs.takeWhile Char.isDigit
    match cs.drop whole.length with
    | [] => !whole.isEmpty
    | '.' :: fraction => isDigits fraction
    | _ => false
  | _ => false

/-- What stands before the first equals sign and, if there is one, behind it. -/
def splitValue (w : String) : String × Option String :=
  let cs := w.toList
  let name := cs.takeWhile (· != '=')
  match cs.drop name.length with
  | [] => (w, none)
  | _ :: value => (String.ofList name, some (String.ofList value))

variable {σ : Type}

/-- The option of a full name. -/
def named? (switches : List (Switch σ)) (name : String) : Option (Switch σ) :=
  switches.find? fun s ↦ s.name == name || (name == "-h" && s.name == "--help")

/-- A word that is no full name of an option. -/
def shortened (switches : List (Switch σ)) (w : String) : Word σ :=
  let other : Word σ :=
    if isNegativeNumber w.toList || w.toList.contains ' ' then .plain else .unknown
  match w.toList with
  | '-' :: '-' :: _ =>
    let (name, value) := splitValue w
    match switches.filter fun s ↦ name.toList.isPrefixOf s.name.toList with
    | [] => other
    | [s] => .option s value
    | _ => .ambiguous
  | '-' :: 'h' :: c :: rest => .option .help (if c == '-' then some (String.ofList (c :: rest)) else none)
  | _ => other

def classify (switches : List (Switch σ)) (w : String) : Word σ :=
  if w == "--" then .terminator
  else if w.toList.head? != some '-' || w == "-" then .plain
  else
    match named? switches w with
    | some s => .option s none
    | none =>
      match splitValue w with
      | (name, some value) =>
        match named? switches name with
        | some s => .option s (some value)
        | none => shortened switches w
      | (_, none) => shortened switches w

def isPlain : Word σ → Bool
  | .plain => true
  | _ => false

/-! ## Reading -/

/-- How far the reading has come. -/
structure Progress (σ : Type) where
  state : σ
  /-- Places that have no word yet. -/
  places : List (Place σ)
  /-- Has the last word been put into a place? -/
  placed : Bool
  /-- Has there been a word that nothing is known to do with? -/
  leftOver : Bool
  /-- Have the options ended? -/
  literal : Bool

namespace Progress

def keep (p : Progress σ) (state : σ) : Progress σ := { p with state, placed := false }

def leave (p : Progress σ) : Progress σ := { p with placed := false, leftOver := true }

/-- Two hyphens are left over unless they stand next to a word in a place. -/
def terminate (p : Progress σ) : Progress σ :=
  { p with
    placed := false
    literal := true
    leftOver := p.leftOver || (p.places.isEmpty && !p.placed) }

end Progress

/-- Reads words; answers with the state and whether there were words left over. -/
def readWords (switches : List (Switch σ)) (p : Progress σ) : List String → Except Stop (σ × Bool)
  | [] =>
    if p.places.isEmpty then .ok (p.state, p.leftOver)
    else .error (.misuse "an argument is missing")
  | w :: rest =>
    match if p.literal then .plain else classify switches w with
    | .plain =>
      match p.places with
      | [] => readWords switches p.leave rest
      | .word set :: more =>
        readWords switches { p with state := set w p.state, places := more, placed := true } rest
      | .command set :: _ => do
        let (state, leftOver) ← set w rest p.state
        pure (state, p.leftOver || leftOver)
    | .terminator =>
      match p.places with
      | .command _ :: _ => .error (.misuse "no command: --")
      | _ => readWords switches p.terminate rest
    | .option .help none => .error .help
    | .option (.flag _ set) none => readWords switches (p.keep (set p.state)) rest
    | .option (.value _ set) (some v) => do
      readWords switches (p.keep (← set v p.state)) rest
    | .option (.value name set) none =>
      match rest with
      | v :: rest =>
        if isPlain (classify switches v) then do
          readWords switches (p.keep (← set v p.state)) rest
        else .error (.misuse s!"{name} needs a value")
      | [] => .error (.misuse s!"{name} needs a value")
    | .option s (some _) => .error (.misuse s!"{s.name} has no value")
    | .ambiguous => .error (.misuse s!"ambiguous option: {w}")
    | .unknown => readWords switches p.leave rest

def isAmbiguous : Word σ → Bool
  | .ambiguous => true
  | _ => false

/-- The first option that is not clear. -/
def ambiguous? (switches : List (Switch σ)) (words : List String) : Option String :=
  (words.takeWhile (· != "--")).find? fun w ↦ isAmbiguous (classify switches w)

/-- Reads all the words into a state. -/
def readAll (switches : List (Switch σ)) (places : List (Place σ)) (state : σ)
    (words : List String) : Except Stop (σ × Bool) :=
  let switches := .help :: switches
  match ambiguous? switches words with
  | some w => .error (.misuse s!"ambiguous option: {w}")
  | none => readWords switches ⟨state, places, false, false, false⟩ words

end CodeAtlas.CommandLine
