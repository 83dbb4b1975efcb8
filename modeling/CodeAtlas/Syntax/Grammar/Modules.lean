import CodeAtlas.Syntax.Grammar.Declarations

/-!
# Imports and exports

What a module takes from others and what it offers. The module that a statement names stands in the
place `source`; a specifier keeps the name in the other module in the place `name`.
-/

namespace CodeAtlas.Syntax.Grammar

open Rule

/-! ## Parts -/

/-- A name as modules export it: a word or a string. -/
def exportedName : Rule Tree := do
  let c ← peek
  if c == '"' || c == '\'' then stringLiteral else anyWord .identifier

/-- `from` and a module. -/
def fromModule : Rule Tree := do
  keyword "from"
  let t ← stringLiteral
  pure (t.placed .source)

/-- `* as name`. -/
def namespaceImport : Rule Tree := do
  let start ← next
  symbol "*"
  keyword "as"
  let name ← bindingName
  build .namespaceImport start [name]

/-- A name, perhaps with a name of its own on this side. -/
def plainSpecifier : Rule Tree := do
  let start ← next
  let name ← exportedName
  if ← tryKeyword "as" then
    let alias' ← bindingName
    build .importSpecifier start [name.placed .name, alias']
  else
    let s ← source
    guard (name.kind == .identifier)
    let w := s.slice name.span.start name.span.stop
    guard (w != "default" && isBindingWord s.dialect w)
    build .importSpecifier start [name.placed .name]

/-- The end of an item in braces. -/
def itemEnds : Rule Unit := do guard ((← sees ",") || (← sees "\x7d"))

/-- The words that mark what is imported as a type. -/
def typeMark : Rule Unit := do
  guard (← isTyped)
  guard (← tryKeyword "type" <||> tryKeyword "typeof")

def importSpecifier : Rule Tree := do
  let start ← next
  (do typeMark
      let t ← plainSpecifier
      itemEnds
      pure (.node t.kind none ⟨start, t.span.stop⟩ t.children)) <|>
    plainSpecifier

def namedImports : Rule Tree := do
  let start ← next
  symbol "\x7b"
  let items ← commaList "\x7d" importSpecifier
  build .namedImports start items

def importClause : Rule Tree := do
  let start ← next
  if ← sees "*" then
    let t ← namespaceImport
    build .importClause start [t]
  else if ← sees "\x7b" then
    let t ← namedImports
    build .importClause start [t]
  else
    let name ← bindingName
    if ← trySymbol "," then
      let t ← if ← sees "*" then namespaceImport else namedImports
      build .importClause start [name, t]
    else build .importClause start [name]

/-- Attributes of an import, unless the statement has already ended. -/
def importAttributes : Rule (List Tree) := do
  if ← endsHere false then pure []
  else if ← tryKeyword "with" <||> (isTyped <&&> tryKeyword "assert") then
    pure [← objectLiteral]
  else pure []

/-! ## Imports -/

/-- `name = require("module")`: the module is named inside the clause. -/
def importRequire : Rule Tree := do
  let start ← next
  guard (← isTyped)
  let name ← bindingName
  guard (← equalsSign)
  keyword "require"
  symbol "("
  let t ← stringLiteral
  symbol ")"
  build .importRequire start [name, t.placed .source]

/-- What an import statement holds behind its first word. -/
def importBody : Rule (List Tree) := do
  let c ← peek
  if c == '"' || c == '\'' then
    let t ← stringLiteral
    pure [t.placed .source]
  else
    (do let clause ← importClause
        pure [clause, ← fromModule]) <|>
      (do pure [← importRequire])

def importStatement : Rule Tree := do
  let start ← next
  keyword "import"
  let parts ← (do typeMark; importBody) <|> importBody
  let attributes ← importAttributes
  semicolon false
  build .importStatement start (parts ++ attributes)

/-! ## Exports -/

def exportSpecifier : Rule Tree := do
  let start ← next
  let plain : Rule Tree := do
    let name ← exportedName
    let more ← if ← tryKeyword "as" then pure [← exportedName] else pure []
    itemEnds
    build .importSpecifier start (name :: more)
  (do typeMark; plain) <|> plain

/-- Names in braces, perhaps taken from another module. -/
def exportNames : Rule (List Tree) := do
  let start ← next
  symbol "\x7b"
  let items ← commaList "\x7d" exportSpecifier
  let clause ← build .exportClause start items
  if (← peekWord) == "from" then pure [clause, ← fromModule] else pure [clause]

/-- Everything of another module, perhaps under one name. -/
def exportAll : Rule (List Tree) := do
  symbol "*"
  let name ← if ← tryKeyword "as" then pure [← exportedName] else pure []
  pure (name ++ [← fromModule])

/-- What an export statement holds behind its first word, up to its end. -/
def exportBody : Rule (List Tree) := do
  let ended (inExpression : Bool) (r : Rule (List Tree)) : Rule (List Tree) := do
    let parts ← r
    let attributes ← importAttributes
    semicolon inExpression
    pure (parts ++ attributes)
  let w ← peekWord
  if ← sees "*" then ended false exportAll
  else if ← sees "\x7b" then ended false exportNames
  else if w == "default" then
    keyword "default"
    (do pure [← declaration false]) <|> (do
      let t ← ask (.single .free false)
      semicolon true
      pure [t])
  else if !(← isTyped) then pure [← declaration true]
  else if ← equalsSign then
    let t ← ask (.single .free false)
    semicolon true
    pure [t]
  else if w == "as" then
    keyword "as"
    keyword "namespace"
    let t ← bindingName
    semicolon false
    pure [t]
  else
    (do pure [← declaration true]) <|> ended false do
      keyword "type"
      if ← sees "*" then exportAll else exportNames

def exportStatement : Rule Tree := do
  let start ← next
  let ds ← decorators
  keyword "export"
  let parts ← exportBody
  build .exportStatement start (ds ++ parts)

end CodeAtlas.Syntax.Grammar
