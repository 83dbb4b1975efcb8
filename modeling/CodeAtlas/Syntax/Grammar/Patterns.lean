import CodeAtlas.Syntax.Grammar.Names

/-!
# Patterns and parameters

What introduces names: a word, or a shape in braces or brackets with patterns and default values in
it. A parameter of a typed dialect may carry modifiers, a question mark and a type.
-/

namespace CodeAtlas.Syntax.Grammar

open Rule

/-- A pattern with a default value. -/
def patternWithDefault : Rule Tree := do
  let start ← next
  let p ← ask .pattern
  let value ← initializer .free
  if value.isEmpty then pure p else build .assignment start (p :: value)

/-- A part of an object pattern. -/
def objectPatternItem : Rule Tree := do
  let start ← next
  if ← trySymbol "..." then
    let p ← ask .pattern
    build .unary start [p]
  else
    let isWord := (← peekWord) != ""
    let name ← memberName
    if ← trySymbol ":" then
      let p ← patternWithDefault
      build .property start [name, p]
    else
      guard isWord
      let value ← initializer .free
      build .property start value

def objectPattern : Rule Tree := do
  let start ← next
  symbol "\x7b"
  let items ← sparseList "\x7d" objectPatternItem
  build .objectPattern start items

def arrayPattern : Rule Tree := do
  let start ← next
  symbol "["
  let items ← sparseList "]" do
    let from' ← next
    if ← trySymbol "..." then
      let p ← ask .pattern
      build .unary from' [p]
    else patternWithDefault
  build .arrayPattern start items

/-- A pattern: what the phrase of that name is. -/
def patternRule : Rule Tree := do
  let c ← peek
  if c == '\x7b' then objectPattern
  else if c == '[' then arrayPattern
  else bindingName

/-! ## Parameters -/

/-- Words that may stand before a parameter's name. -/
def parameterModifiers : List String := ["public", "private", "protected", "override", "readonly"]

/-- Skips modifiers: words of the list that another word or a pattern follows. -/
def skipModifiers (modifiers : List String) : Rule Unit :=
  loop (fun _ ↦ do
    let w ← peekWord
    let i ← position
    if ← pure (modifiers.contains w) <&&> tryKeyword w then
      let c ← peek
      if (← peekWord) != "" || c == '\x7b' || c == '[' || c == '.' then pure (.inl ())
      else
        moveTo i
        pure (.inr ())
    else pure (.inr ())) ()

/-- What a parameter is called. -/
def parameterName : Rule Tree := do
  if ← trySymbol "..." then ask .pattern
  else if (← isTyped) && (← peekWord) == "this" then anyWord .thisName
  else ask .pattern

def parameter : Rule Tree := do
  let start ← next
  if ← isTyped then
    let ds ← decorators
    skipModifiers parameterModifiers
    let name ← parameterName
    let _ ← if (← sees "?") then trySymbol "?" else pure false
    let ts ← optionalType
    let value ← initializer .free
    build .parameter start (ds ++ name :: ts ++ value)
  else
    let name ← parameterName
    let value ← initializer .free
    build .parameter start (name :: value)

/-- Parameters in parentheses. -/
def parameters : Rule Tree := do
  let start ← next
  symbol "("
  let items ← commaList ")" parameter
  build .parameters start items

/-- Could parameters start here? A look at the token behind the parenthesis. -/
def mayBeParameters : Rule Bool := ahead do
  symbol "("
  let c ← peek
  if c == ')' || c == '\x7b' || c == '[' || c == '@' then pure ()
  else if ← sees "..." then pure ()
  else
    let w ← peekWord
    guard (w != "")
    let _ ← anyWord .identifier
    let c ← peek
    guard (c == ')' || c == ',' || c == '=' || c == ':' || c == '?' || (← peekWord) != ""
      || (parameterModifiers.contains w && (c == '\x7b' || c == '[')))

end CodeAtlas.Syntax.Grammar
