import CodeAtlas.Syntax.Grammar.Patterns

/-!
# Types

The type language of the typed dialects: names with arguments, functions and constructors, object
and tuple types, unions and intersections, queries, conditional and mapped types. A bracket on a
new line does not continue a type, because a semicolon is inserted before it.
-/

namespace CodeAtlas.Syntax.Grammar

open Rule

/-! ## Signatures -/

/-- One type parameter, with its bound and its default. -/
def typeParameter : Rule Tree := do
  let start ← next
  let i ← position
  if ← tryKeyword "const" then
    if (← peekWord) == "" then moveTo i
  let name ← anyWord .typeNode
  let bound ← if ← tryKeyword "extends" <||> trySymbol ":" then
      pure [← ask .typed] else pure []
  let value ← if ← equalsSign then pure [← ask .typed] else pure []
  build .typeNode start (name :: bound ++ value)

def typeParameters : Rule Tree := do
  let start ← next
  symbol "<"
  let ts ← commaList ">" typeParameter
  guard (!ts.isEmpty)
  build .typeNode start ts

/-- Type parameters, if the dialect has types and some are written. -/
def optionalTypeParameters : Rule (List Tree) := do
  if (← isTyped) && (← sees "<") then pure [← typeParameters] else pure []

/-- `x is T`. -/
def predicateType : Rule Tree := do
  let start ← next
  let _ ← anyWord .identifier
  keyword "is"
  let t ← ask .typed
  build .typeNode start [t]

/-- `asserts x` or `asserts x is T`. -/
def assertsType : Rule Tree := do
  let start ← next
  keyword "asserts"
  guard ((← peekWord) != "is")
  (do let t ← predicateType
      build .typeNode start [t]) <|>
    (do let _ ← anyWord .identifier
        build .typeNode start [])

/-- What a function promises about its result. -/
def resultType : Rule Tree := assertsType <|> predicateType <|> ask .typed

/-- A result type behind a colon, if the dialect has types and one is written. -/
def optionalResult : Rule (List Tree) := do
  if (← isTyped) && (← sees ":") then
    symbol ":"
    pure [← resultType]
  else pure []

/-- Type parameters, parameters and result of a function. -/
def signature : Rule (List Tree) := do
  let ts ← optionalTypeParameters
  let ps ← parameters
  let result ← optionalResult
  pure (ts ++ ps :: result)

/-! ## Members of object types -/

/-- Words that may stand before the name of a member. -/
def memberModifiers : List String :=
  ["declare", "public", "private", "protected", "static", "override", "readonly", "abstract",
    "accessor", "async", "get", "set"]

/-- Does the next token show that the word before it was the member's name? -/
def endsMemberName : Rule Bool := do
  let c ← peek
  pure ("(<:?!=,;\x7d".toList.contains c) <||> atEnd

/-- Skips modifiers of a member: words of the list behind which a name follows. -/
def skipMemberModifiers (modifiers : List String) : Rule Unit :=
  loop (fun _ ↦ do
    let w ← peekWord
    let i ← position
    if ← pure (modifiers.contains w) <&&> tryKeyword w then
      if ← endsMemberName then
        moveTo i
        pure (.inr ())
      else pure (.inl ())
    else pure (.inr ())) ()

/-- `[key: K]`, `[K in T]` or `[K in T as U]` with the type of the values. -/
def indexSignature : Rule Tree := do
  let start ← next
  symbol "["
  let _ ← anyWord .identifier
  let inner ←
    if ← trySymbol ":" then pure [← ask .typed]
    else
      keyword "in"
      let t ← ask .typed
      if ← tryKeyword "as" then pure [t, ← ask .typed] else pure [t]
  symbol "]"
  let _ ← trySymbol "-" <||> trySymbol "+"
  let _ ← trySymbol "?"
  let value ← typeAnnotation
  build .typeNode start (inner ++ [value])

def typeMember : Rule Tree := do
  let start ← next
  let _ ← if (← sees "+") || (← sees "-") then
      (do let _ ← trySymbol "+" <||> trySymbol "-"
          keyword "readonly"
          pure true)
    else pure false
  skipMemberModifiers memberModifiers
  let _ ← trySymbol "*"
  let c ← peek
  if c == '(' || c == '<' then
    let parts ← signature
    build .typeNode start parts
  else
    (do guard (c == '[')
        indexSignature) <|>
      (do keyword "new"
          guard ((← peek) == '(' || (← peek) == '<')
          let parts ← signature
          build .typeNode start parts) <|>
      (do let name ← memberName
          let _ ← trySymbol "?"
          let c ← peek
          let parts ← if c == '(' || c == '<' then signature else optionalType
          build .typeNode start (name :: parts))

/-- Members in braces, separated by commas, semicolons or line ends. -/
def objectType : Rule Tree := do
  let start ← next
  symbol "\x7b"
  let members ← loop (fun (ms : List Tree) ↦ do
    if ← trySymbol "\x7d" then pure (.inr ms.reverse)
    else if ← trySymbol "," <||> trySymbol ";" then pure (.inl ms)
    else
      let m ← typeMember
      if (← sees ",") || (← sees ";") || (← sees "\x7d") then pure (.inl (m :: ms))
      else
        guard (← endsHere false)
        pure (.inl (m :: ms))) []
  build .typeNode start members

/-! ## Primary types -/

/-- An entry of a tuple, perhaps named, optional or spread. -/
def tupleItem : Rule Tree := do
  let start ← next
  let _ ← trySymbol "..."
  (do let _ ← anyWord .identifier
      let _ ← trySymbol "?"
      let t ← typeAnnotation
      build .typeNode start [t]) <|>
    (do let t ← ask .typed
        let _ ← trySymbol "?"
        build .typeNode start [t])

def tupleType : Rule Tree := do
  let start ← next
  symbol "["
  let items ← commaList "]" tupleItem
  build .typeNode start items

/-- A function type, with or without type parameters. -/
def functionType : Rule Tree := do
  let start ← next
  let ts ← optionalTypeParameters
  let ps ← parameters
  symbol "=>"
  let result ← resultType
  build .typeNode start (ts ++ [ps, result])

def constructorType : Rule Tree := do
  let start ← next
  let _ ← tryKeyword "abstract"
  keyword "new"
  let t ← functionType
  build .typeNode start [t]

def parenthesizedType : Rule Tree := do
  let start ← next
  symbol "("
  let t ← ask .typed
  symbol ")"
  build .typeNode start [t]

/-- Type arguments, if they come next. -/
def optionalTypeArguments : Rule (List Tree) := do
  if ← sees "<" then pure (← optional typeArguments).toList else pure []

/-- `import("m")`, as the start of a path to a type. -/
def importedModule : Rule Tree := do
  let start ← next
  keyword "import"
  symbol "("
  let items ← commaList ")" (ask (.single .free false))
  build .typeNode start items

/-- A path of names with type arguments at its end. -/
def typePath : Rule Tree := do
  let start ← next
  let first ← if (← peekWord) == "import" then importedModule else anyWord .typeNode
  let path ← namePath start first
  let args ← optionalTypeArguments
  build .typeNode start (path :: args)

/-- The type of a value. -/
def typeQuery : Rule Tree := do
  let start ← next
  keyword "typeof"
  let t ← typePath
  build .typeNode start [t]

def inferType : Rule Tree := do
  let start ← next
  keyword "infer"
  let _ ← anyWord .typeNode
  let bound ← optional do
    keyword "extends"
    let t ← ask .typed
    guard (!(← sees "?"))
    pure t
  build .typeNode start bound.toList

/-- Words that are followed by the type they apply to. -/
def typeOperators : List String := ["keyof", "readonly", "unique"]

/-- Could the next token start a type on the same line? -/
def typeFollows : Rule Bool := do
  let c ← peek
  pure (!(← lineEndAhead) && ((← peekWord) != "" || "([\x7b\"'\x60".toList.contains c || c.isDigit))

def primaryType : Rule Tree := do
  let c ← peek
  if c == '(' then
    if ← mayBeParameters then functionType <|> parenthesizedType else parenthesizedType
  else if c == '<' then functionType
  else if c == '\x7b' then objectType
  else if c == '[' then tupleType
  else if c == '\x60' then templateOf (ask .typed)
  else if c == '"' || c == '\'' then stringLiteral
  else if c.isDigit || c == '.' then numberLiteral
  else if c == '-' || c == '+' then
    let _ ← trySymbol "-" <||> trySymbol "+"
    numberLiteral
  else if c == '*' then
    let start ← next
    symbol "*"
    build .typeNode start []
  else
    let w ← peekWord
    if w == "new" then constructorType
    else if w == "abstract" then constructorType <|> typePath
    else if w == "typeof" then typeQuery
    else if w == "infer" then inferType <|> typePath
    else typePath

/-- Operators before a primary type and brackets behind it. -/
def postfixType : Rule Tree := do
  let start ← next
  let _ ← loop (fun _ ↦ do
    let w ← peekWord
    let i ← position
    if ← pure (typeOperators.contains w) <&&> tryKeyword w then
      if ← typeFollows then pure (.inl ())
      else
        moveTo i
        pure (.inr ())
    else pure (.inr ())) ()
  let first ← primaryType
  loop (fun (t : Tree) ↦ do
    if (← sees "[") && !(← lineEndAhead) then
      symbol "["
      if ← trySymbol "]" then pure (.inl (← build .typeNode start [t]))
      else
        let index ← ask .typed
        symbol "]"
        pure (.inl (← build .typeNode start [t, index]))
    else pure (.inr t)) first

/-- Unions and intersections, with a sign allowed in front. -/
def unionType : Rule Tree := do
  let start ← next
  let _ ← trySymbol "|" <||> trySymbol "&"
  let first ← postfixType
  loop (fun (t : Tree) ↦ do
    if ((← sees "|") && !(← sees "||")) || ((← sees "&") && !(← sees "&&")) then
      let _ ← trySymbol "|" <||> trySymbol "&"
      let u ← postfixType
      pure (.inl (← build .typeNode start [t, u]))
    else pure (.inr t)) first

/-- A type: what the phrase of that name is. -/
def typeRule : Rule Tree := do
  let start ← next
  let t ← unionType
  let choice ← optional do
    guard (!(← lineEndAhead))
    keyword "extends"
    let bound ← ask .typed
    symbol "?"
    let yes ← ask .typed
    symbol ":"
    let no ← ask .typed
    pure [bound, yes, no]
  match choice with
  | some parts => build .typeNode start (t :: parts)
  | none => pure t

end CodeAtlas.Syntax.Grammar
