import CodeAtlas.Syntax.Semicolon
import CodeAtlas.Syntax.Tree

/-!
# Rules that ask for phrases

A grammar rule is a short computation over a position. Wherever the grammar is recursive, a rule
does not call another one: it *asks* for a phrase, names the position, and says how to go on with
the answer. The questions are answered by one loop with an explicit stack of suspended rules.

So no rule refers to itself, every rule is a plain definition, and the depth of the text costs heap
and not machine stack. The loop is bounded by a number of questions that no real text comes near.
-/

namespace CodeAtlas.Syntax

/-- What a surrounding construct forbids an expression. -/
structure Setting where
  /-- `in` is not an operator here: the head of a loop. -/
  noIn : Bool
  /-- An arrow function has no return type here: between `?` and `:`. -/
  plainArrow : Bool

def Setting.free : Setting := ⟨false, false⟩

/-- The phrases a rule may ask for. -/
inductive Goal where
  | statement
  | block
  /-- Expressions with commas between them. -/
  | expression (setting : Setting)
  /-- One expression; `cover` admits what can only be a pattern. -/
  | single (setting : Setting) (cover : Bool)
  | operand (setting : Setting)
  | pattern
  | typed
  | element

/-- A rule at work: finished, failed, or waiting for a phrase. -/
inductive Reading (α : Type) where
  | done (value : α) (position : Nat)
  | fail
  | ask (goal : Goal) (position : Nat) (resume : Option (Tree × Nat) → Reading α)

namespace Reading

variable {α β : Type}

def bind : Reading α → (α → Nat → Reading β) → Reading β
  | done a i, f => f a i
  | fail, _ => fail
  | ask g i k, f => ask g i fun r ↦ (k r).bind f

/-- Starts over with another reading where the first one fails. -/
def orElse : Reading α → (Unit → Reading α) → Reading α
  | done a i, _ => done a i
  | fail, other => other ()
  | ask g i k, other => ask g i fun r ↦ (k r).orElse other

end Reading

/-- A rule reads from a position of a source. -/
def Rule (α : Type) := Source → Nat → Reading α

namespace Rule

variable {α β : Type}

instance : Monad Rule where
  pure a := fun _ i ↦ .done a i
  bind r f := fun s i ↦ (r s i).bind fun a j ↦ f a s j

instance : OrElse (Rule α) where
  orElse r other := fun s i ↦ (r s i).orElse fun _ ↦ other () s i

def fail : Rule α := fun _ _ ↦ .fail

/-- Fails unless the condition holds. -/
def guard (b : Bool) : Rule Unit := if b then pure () else fail

def source : Rule Source := fun s i ↦ .done s i

def position : Rule Nat := fun _ i ↦ .done i i

def moveTo (j : Nat) : Rule Unit := fun _ _ ↦ .done () j

/-- Asks for a phrase at the present position. -/
def ask (g : Goal) : Rule Tree := fun _ i ↦
  .ask g i fun
    | some (t, j) => .done t j
    | none => .fail

/-- Repeats a step until it gives a result. -/
def iterate (step : β → Rule (β ⊕ α)) : Nat → β → Rule α
  | 0, _ => fail
  | fuel + 1, b => do
    match ← step b with
    | .inl b => iterate step fuel b
    | .inr a => pure a

/-- Repeats a step until it gives a result; no text holds more steps than characters. -/
def loop (step : β → Rule (β ⊕ α)) (b : β) : Rule α := do
  let s ← source
  iterate step (s.size + 2) b

/-- The rule's result if it succeeds; otherwise nothing is read. -/
def optional (r : Rule α) : Rule (Option α) := (some <$> r) <|> pure none

/-! ## Tokens -/

/-- The position of the next token. -/
def next : Rule Nat := fun s i ↦ .done (s.skip i) i

/-- Moves to the next token. -/
def gap : Rule Unit := fun s i ↦ .done () (s.skip i)

/-- Moves to the next token where an operand may start. -/
def operandGap : Rule Unit := fun s i ↦ .done () (s.skipOperand i)

/-- The character that the next token starts with. -/
def peek : Rule Char := fun s i ↦ .done (s.char (s.skip i)) i

/-- Is nothing left but gaps? -/
def atEnd : Rule Bool := fun s i ↦ .done (s.atEnd (s.skip i)) i

/-- Does the next token start with the given text? -/
def sees (t : String) : Rule Bool := fun s i ↦ .done (s.startsWith (s.skip i) t.toList) i

/-- Reads the given text, if the next token starts with it. -/
def trySymbol (t : String) : Rule Bool := fun s i ↦
  let j := s.skip i
  if s.startsWith j t.toList then .done true (j + t.length) else .done false i

def symbol (t : String) : Rule Unit := do guard (← trySymbol t)

/-- The next token if it is a word; otherwise the empty text. -/
def peekWord : Rule String := fun s i ↦ .done (s.wordAt (s.skip i)) i

/-- Reads the given word, if it comes next. -/
def tryKeyword (w : String) : Rule Bool := fun s i ↦
  let j := s.skip i
  if s.startsWith j w.toList && s.wordEnd? j == some (j + w.length) then
    .done true (j + w.length)
  else .done false i

def keyword (w : String) : Rule Unit := do guard (← tryKeyword w)

/-- Is there a line end before the next token? -/
def lineEndAhead : Rule Bool := fun s i ↦ .done (s.hasLineEnd i (s.skip i)) i

/-- Does a rule apply here? Nothing is read. -/
def ahead (r : Rule α) : Rule Bool := do
  let i ← position
  let found ← optional r
  moveTo i
  pure found.isSome

def isTyped : Rule Bool := fun s i ↦ .done s.dialect.isTyped i

def dialect : Rule Dialect := fun s i ↦ .done s.dialect i

/-- Ends a statement: a semicolon, written or automatic. -/
def semicolon (inExpression : Bool) : Rule Unit := fun s i ↦
  match s.semicolon? ⟨inExpression⟩ i with
  | some j => .done () j
  | none =>
    let j := s.skip i
    if s.char j == ';' then .done () (j + 1) else .fail

/-- Would an automatic semicolon be inserted here? -/
def endsHere (inExpression : Bool) : Rule Bool := fun s i ↦
  .done (s.semicolon? ⟨inExpression⟩ i).isSome i

/-! ## Trees -/

/-- A tree from a start to the present position. -/
def build (kind : Kind) (start : Nat) (children : List Tree) : Rule Tree := fun _ i ↦
  .done (.node kind none ⟨start, i⟩ children) i

/-- A leaf made of the token that the recogniser finds next. -/
def leaf (kind : Kind) (recognise : Source → Nat → Option Nat) : Rule Tree := fun s i ↦
  let start := s.skip i
  match recognise s start with
  | some j => .done (.node kind none ⟨start, j⟩ []) j
  | none => .fail

/-- Items with commas between them up to a closing text, an extra comma at the end allowed. The
opening text has been read. -/
def commaList (closing : String) (item : Rule Tree) : Rule (List Tree) :=
  loop (fun (items : List Tree) ↦ do
    if ← trySymbol closing then pure (.inr items.reverse)
    else
      let x ← item
      if ← trySymbol "," then pure (.inl (x :: items))
      else
        symbol closing
        pure (.inr (x :: items).reverse)) []

/-- Like `commaList`, with places that may be left empty. -/
def sparseList (closing : String) (item : Rule Tree) : Rule (List Tree) :=
  loop (fun (items : List Tree) ↦ do
    if ← trySymbol closing then pure (.inr items.reverse)
    else if ← trySymbol "," then pure (.inl items)
    else
      let x ← item
      if ← trySymbol "," then pure (.inl (x :: items))
      else
        symbol closing
        pure (.inr (x :: items).reverse)) []

end Rule

/-! ## Answering -/

/-- A rule that waits for a phrase. -/
abbrev Suspended := Option (Tree × Nat) → Reading Tree

/-- Answers questions, the last one first, until the first rule is finished. -/
def answer (rules : Goal → Rule Tree) (s : Source) :
    Nat → List Suspended → Reading Tree → Option (Tree × Nat)
  | 0, _, _ => none
  | fuel + 1, waiting, reading =>
    match reading, waiting with
    | .done t i, [] => some (t, i)
    | .done t i, k :: rest => answer rules s fuel rest (k (some (t, i)))
    | .fail, [] => none
    | .fail, k :: rest => answer rules s fuel rest (k none)
    | .ask g i k, _ => answer rules s fuel (k :: waiting) (rules g s i)

end CodeAtlas.Syntax
