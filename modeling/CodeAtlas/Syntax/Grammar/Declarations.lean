import CodeAtlas.Syntax.Grammar.Expressions

/-!
# Declarations

Variables, functions and classes, and the declarations that only typed dialects have: type aliases,
interfaces, enumerations, namespaces, and ambient forms of all of them.

A function declaration may end with an automatic semicolon. The comments before that semicolon
belong to the declaration, so its span can reach beyond the closing brace.
-/

namespace CodeAtlas.Syntax.Grammar

open Rule

/-! ## Variables -/

/-- One variable with its type and its value. -/
def declarator (setting : Setting) : Rule Tree := do
  let start ← next
  let name ← ask .pattern
  let _ ← if (← isTyped) && (← sees "!") then trySymbol "!" else pure false
  let types ← optionalType
  let value ← initializer setting
  build .property start (name :: types ++ value)

/-- The word that introduces variables. `let` and `using` are also names, so a name or a pattern
has to follow. -/
def variableWord : Rule Unit := do
  let w ← peekWord
  if w == "var" || w == "const" then keyword w
  else
    if w == "await" then keyword "await"
    let w ← peekWord
    guard (w == "let" || w == "using")
    keyword w
    guard (!(← lineEndAhead))
    let c ← peek
    let following ← peekWord
    guard ((following != "" && following != "in" && following != "instanceof")
      || (w == "let" && (c == '[' || c == '\x7b')))

/-- Does the variable have a value? -/
def isInitialised (t : Tree) : Bool := (t.children.filter fun c ↦ c.kind != .typeNode).length > 1

def variableDeclaration : Rule Tree := do
  let start ← next
  variableWord
  let items ← commaItems (declarator .free)
  semicolon (items.getLast?.any isInitialised)
  build .variableDeclaration start items

/-! ## Functions and classes -/

/-- A function with a body or, in a typed dialect, a signature on its own. `exported` says that the
declaration directly follows `export`. -/
def functionDeclaration (exported : Bool) : Rule Tree := do
  let start ← next
  guard (← startsFunction)
  let star ← functionHead
  let name ← bindingName
  let parts ← signature
  if ← sees "\x7b" then
    let body ← functionBody
    let s ← source
    let i ← position
    moveTo ((s.semicolon? ⟨!exported || s.dialect.isTyped⟩ i).getD i)
    build (if star then .generatorDeclaration else .functionDeclaration) start
      (name.placed .name :: parts ++ [body])
  else
    guard (← isTyped)
    semicolon false
    build .functionSignature start (name.placed .name :: parts)

def classDeclaration : Rule Tree := do
  let start ← next
  let ds ← decorators
  let _ ← if ← isTyped then tryKeyword "abstract" else pure false
  keyword "class"
  let parts ← classTail true
  build .classDeclaration start (ds ++ parts)

/-! ## Declarations of typed dialects -/

/-- A keyword with the word it introduces on the same line. -/
def leadingKeyword (w : String) : Rule Unit := do
  guard (← isTyped)
  keyword w
  guard (!(← lineEndAhead))

def typeAlias : Rule Tree := do
  let start ← next
  leadingKeyword "type"
  let name ← anyWord .typeNode
  let ts ← optionalTypeParameters
  guard (← equalsSign)
  let t ← ask .typed
  semicolon false
  build .typeDeclaration start (name :: ts ++ [t])

def interfaceDeclaration : Rule Tree := do
  let start ← next
  guard (← isTyped)
  keyword "interface"
  let name ← anyWord .typeNode
  let ts ← optionalTypeParameters
  let parents ← if ← tryKeyword "extends" then commaItems typePath else pure []
  let body ← objectType
  build .typeDeclaration start (name :: ts ++ parents ++ [body])

def enumMember : Rule Tree := do
  let start ← next
  let name ← memberName
  let value ← initializer .free
  build .property start (name :: value)

def enumDeclaration : Rule Tree := do
  let start ← next
  guard (← isTyped)
  let _ ← tryKeyword "const"
  keyword "enum"
  let name ← bindingName
  symbol "\x7b"
  let items ← commaList "\x7d" enumMember
  build .typeDeclaration start (name :: items)

/-- A namespace or module with a name or a path, and usually a block. -/
def moduleDeclaration : Rule Tree := do
  let start ← next
  guard (← isTyped)
  let w ← peekWord
  guard (w == "namespace" || w == "module")
  keyword w
  guard (!(← lineEndAhead))
  let c ← peek
  let from' ← next
  let name ← if c == '"' || c == '\'' then stringLiteral else do namePath from' (← bindingName)
  let body ← if ← sees "\x7b" then pure [← ask .block] else
    guard (← endsHere false <||> sees ";")
    pure []
  build .moduleDeclaration start (name :: body)

/-- `import a = b.c`. -/
def importAlias : Rule Tree := do
  let start ← next
  leadingKeyword "import"
  let name ← bindingName
  guard (← equalsSign)
  let from' ← next
  let path ← namePath from' (← bindingName)
  semicolon false
  build .importAlias start [name, path]

/-- Every declaration that needs no word of its own in front. -/
def plainDeclaration (exported : Bool) : Rule Tree := do
  let w ← peekWord
  if ← startsFunction then functionDeclaration exported
  else if w == "class" || (← sees "@") then classDeclaration
  else if w == "abstract" && (← isTyped) then classDeclaration
  else if w == "const" then enumDeclaration <|> variableDeclaration
  else if w == "var" || w == "let" || w == "using" || w == "await" then variableDeclaration
  else if !(← isTyped) then fail
  else if w == "type" then typeAlias
  else if w == "interface" then interfaceDeclaration
  else if w == "enum" then enumDeclaration
  else if w == "namespace" || w == "module" then moduleDeclaration
  else if w == "import" then importAlias
  else fail

/-- A declaration of something that exists elsewhere. -/
def ambientDeclaration : Rule Tree := do
  let start ← next
  leadingKeyword "declare"
  if (← peekWord) == "global" then
    keyword "global"
    let body ← ask .block
    build .moduleDeclaration start [body]
  else
    let t ← plainDeclaration false
    build .moduleDeclaration start [t]

/-- Any declaration. -/
def declaration (exported : Bool) : Rule Tree := do
  if (← peekWord) == "declare" then ambientDeclaration else plainDeclaration exported

end CodeAtlas.Syntax.Grammar
