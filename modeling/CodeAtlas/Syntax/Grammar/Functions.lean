import CodeAtlas.Syntax.Grammar.Types

/-!
# Functions and classes

Functions, arrow functions and classes as they occur in expressions and declarations. A class body
holds methods, fields, static blocks and, in a typed dialect, signatures without a body.
-/

namespace CodeAtlas.Syntax.Grammar

open Rule

/-! ## Functions -/

/-- `function` or `async function`, and whether a star follows. -/
def functionHead : Rule Bool := do
  let _ ← tryKeyword "async"
  keyword "function"
  trySymbol "*"

/-- Does a function start here? `async` belongs to it only on the same line. -/
def startsFunction : Rule Bool := do
  let w ← peekWord
  if w == "function" then pure true
  else if w == "async" then
    ahead do
      keyword "async"
      guard (!(← lineEndAhead))
      keyword "function"
  else pure false

/-- The body of a function. -/
def functionBody : Rule Tree := do
  let body ← ask .block
  pure (body.placed .body)

def functionExpression : Rule Tree := do
  let start ← next
  let _ ← functionHead
  let c ← peek
  let name ← if c == '(' || c == '<' then pure [] else pure [(← bindingName).placed .name]
  let parts ← signature
  let body ← functionBody
  build .functionExpression start (name ++ parts ++ [body])

/-! ## Arrow functions -/

/-- The arrow and the body. Braces are a block if they can be read as one. -/
def arrowTail (setting : Setting) (start : Nat) (params : List Tree) : Rule Tree := do
  symbol "=>"
  let body ←
    if ← sees "\x7b" then functionBody <|> ask (.single setting false)
    else ask (.single setting false)
  build .arrowFunction start (params ++ [body])

/-- An arrow function whose parameters are in parentheses. -/
def arrowFunction (setting : Setting) (start : Nat) : Rule Tree := do
  let ts ← optionalTypeParameters
  let ps ← parameters
  let result ← if setting.plainArrow then pure [] else optionalResult
  arrowTail setting start (ts ++ ps :: result)

/-- An arrow function with one parameter and no parentheses. -/
def shortArrow (setting : Setting) (start : Nat) : Rule Tree := do
  let name ← bindingName
  arrowTail setting start [name]

/-! ## Classes -/

/-- Words before the name of a class member. -/
def classModifiers (d : Dialect) : List String :=
  if d.isTyped then memberModifiers else ["static", "async", "get", "set"]

/-- The end of a member without a body. -/
def memberEnd (inExpression : Bool) : Rule Unit := do
  if (← isTyped) && (← sees ",") then symbol "," else semicolon inExpression

def staticBlock : Rule Tree := do
  let start ← next
  keyword "static"
  guard (← sees "\x7b")
  let body ← functionBody
  build .method start [body]

def classMember : Rule Tree := do
  let start ← next
  let ds ← decorators
  skipMemberModifiers (classModifiers (← dialect))
  let _ ← trySymbol "*"
  let index ← optional do
    guard ((← isTyped) && (← sees "["))
    let t ← indexSignature
    memberEnd false
    pure t
  match index with
  | some t => pure t
  | none =>
    let name ← memberName
    let _ ← if ← isTyped then trySymbol "?" else pure false
    let _ ← if (← isTyped) && (← sees "!") then trySymbol "!" else pure false
    if (← sees "(") || ((← isTyped) && (← sees "<")) then
      let parts ← signature
      if ← sees "\x7b" then
        let body ← functionBody
        build .method start (ds ++ name :: parts ++ [body])
      else
        guard (← isTyped)
        memberEnd false
        build .method start (ds ++ name :: parts)
    else
      let types ← optionalType
      let value ← initializer .free
      memberEnd (!value.isEmpty)
      build .property start (ds ++ name :: types ++ value)

def classBody : Rule Tree := do
  let start ← next
  symbol "\x7b"
  let members ← loop (fun (ms : List Tree) ↦ do
    if ← trySymbol "\x7d" then pure (.inr ms.reverse)
    else if ← trySymbol ";" then pure (.inl ms)
    else
      let m ← (staticBlock <|> classMember)
      pure (.inl (m :: ms))) []
  build .classBody start members

/-- A class that is extended, with type arguments in a typed dialect. -/
def extended : Rule Tree := do
  let start ← next
  let t ← ask (.operand .free)
  let args ← if ← isTyped then optionalTypeArguments else pure []
  build .heritage start (t :: args)

/-- One or more items with commas between them. -/
def commaItems (item : Rule Tree) : Rule (List Tree) := do
  let first ← item
  loop (fun (items : List Tree) ↦ do
    if ← trySymbol "," then pure (.inl ((← item) :: items)) else pure (.inr items.reverse)) [first]

def heritage : Rule (List Tree) := do
  let supers ←
    if ← tryKeyword "extends" then
      if ← isTyped then commaItems extended else pure [← extended]
    else pure []
  let interfaces ←
    if ← isTyped <&&> tryKeyword "implements" then commaItems (ask .typed) else pure []
  pure (supers ++ interfaces)

/-- Does the next word name the class, or does the heritage start? -/
def classNamed : Rule Bool := do
  let w ← peekWord
  if w == "" || w == "extends" then pure false
  else if w == "implements" && (← isTyped) then pure false
  else pure true

/-- What follows the word `class`: name, type parameters, heritage and body. -/
def classTail (needsName : Bool) : Rule (List Tree) := do
  let name ← if ← classNamed then pure [(← bindingName).placed .name] else pure []
  guard (!needsName || !name.isEmpty)
  let ts ← optionalTypeParameters
  let parents ← heritage
  let body ← classBody
  pure (name ++ ts ++ parents ++ [body.placed .body])

def classExpression : Rule Tree := do
  let start ← next
  let ds ← decorators
  keyword "class"
  let parts ← classTail false
  build .classExpression start (ds ++ parts)

end CodeAtlas.Syntax.Grammar
