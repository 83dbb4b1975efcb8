import CodeAtlas.Syntax.Reading

/-!
# Names, literals and lists of expressions

The parts that every level of the grammar shares. Which words may stand as names depends on the
dialect: the plain grammar reserves its keywords everywhere, the typed ones only where the keyword
itself could stand.
-/

namespace CodeAtlas.Syntax.Grammar

open Rule

/-! ## Words -/

/-- Keywords that the plain grammar admits as no name. -/
def reservedWords : List String :=
  ["break", "case", "catch", "class", "const", "continue", "debugger", "default", "delete", "do",
    "else", "export", "extends", "false", "finally", "for", "function", "if", "import", "in",
    "instanceof", "new", "null", "return", "super", "switch", "this", "throw", "true", "try",
    "typeof", "var", "void", "while", "with"]

/-- Keywords that start an operand and so are never names where an operand may start. -/
def operandWords : List String :=
  ["class", "delete", "false", "function", "import", "new", "null", "super", "this", "true",
    "typeof", "void"]

/-- A word that may be given to something as its name. -/
def isBindingWord (d : Dialect) (w : String) : Bool :=
  w != "" && (d.isTyped || !reservedWords.contains w)

/-- A word that stands for a value. -/
def isValueWord (d : Dialect) (w : String) : Bool :=
  isBindingWord d w && !operandWords.contains w

/-- The kind of a word that stands for a value: `undefined` is a name of its own. -/
def wordKind (w : String) : Kind := if w == "undefined" then .undefinedName else .identifier

/-- A name that is being introduced. -/
def bindingName : Rule Tree := do
  guard (isBindingWord (← dialect) (← peekWord))
  leaf .identifier Source.wordEnd?

/-- Any word, keywords included. -/
def anyWord (kind : Kind) : Rule Tree := leaf kind Source.wordEnd?

/-- `=`, but not the beginning of `==` or `=>`. -/
def equalsSign : Rule Bool := do
  if (← sees "=") && !(← sees "==") && !(← sees "=>") then trySymbol "=" else pure false

/-- One point, but not three. -/
def singlePoint : Rule Bool := do
  if (← sees ".") && !(← sees "..") then trySymbol "." else pure false

/-! ## Literals -/

def stringLiteral : Rule Tree := leaf .string Source.stringEnd?

def numberLiteral : Rule Tree := leaf .literal Source.numberEnd?

def regexLiteral : Rule Tree := leaf .literal Source.regexEnd?

/-- A template whose opening backtick comes next; `inner` reads what a substitution holds. -/
def templateOf (inner : Rule Tree) : Rule Tree := do
  let start ← next
  symbol "\x60"
  let parts ← loop (fun (parts : List Tree) ↦ do
    let s ← source
    let i ← position
    let j := s.spanWhile (fun c ↦ c != '\x60' && c != '\\' && c != '$') i
    guard (!s.atEnd j)
    if s.char j == '\x60' then
      moveTo (j + 1)
      pure (.inr parts.reverse)
    else if s.char j == '\\' then
      match s.escapeEnd? j with
      | some k =>
        moveTo k
        pure (.inl parts)
      | none => fail
    else if s.char (j + 1) == '\x7b' then
      moveTo (j + 2)
      let t ← inner
      symbol "\x7d"
      pure (.inl (t :: parts))
    else
      moveTo (j + 1)
      pure (.inl parts)) []
  build .template start parts

def template : Rule Tree := templateOf (ask (.expression .free))

/-! ## Lists of expressions -/

/-- An expression, or one that is spread. -/
def spreadable (cover : Bool) : Rule Tree := do
  let start ← next
  if ← trySymbol "..." then
    let t ← ask (.single .free cover)
    build .unary start [t]
  else ask (.single .free cover)

/-- Arguments in parentheses. -/
def arguments : Rule Tree := do
  let start ← next
  symbol "("
  let items ← sparseList ")" (spreadable false)
  build .arguments start items

/-- An expression in parentheses, as the head of a statement. -/
def condition : Rule Tree := do
  let start ← next
  symbol "("
  let t ← ask (.expression .free)
  symbol ")"
  build .parenthesized start [t]

/-! ## Names of members -/

/-- A private name: a number sign and a word. -/
def privateName : Rule Tree :=
  leaf .privateName fun s i ↦ if s.char i == '#' then s.wordEnd? (i + 1) else none

/-- An expression in brackets that computes a name. -/
def computedName : Rule Tree := do
  let start ← next
  symbol "["
  let t ← ask (.single .free false)
  symbol "]"
  build .property start [t]

/-- The name of a member of an object or a class. -/
def memberName : Rule Tree := do
  let c ← peek
  if c == '[' then computedName
  else if c == '#' then privateName
  else if c == '"' || c == '\'' then stringLiteral
  else if c.isDigit || c == '.' then numberLiteral
  else anyWord .property

/-! ## Types as asked for by others -/

/-- A type behind a colon. -/
def typeAnnotation : Rule Tree := do
  symbol ":"
  ask .typed

/-- A type behind a colon, if the dialect has types and one is written. -/
def optionalType : Rule (List Tree) := do
  if (← isTyped) && (← sees ":") then pure [← typeAnnotation] else pure []

/-- The types that a use of a generic is given. -/
def typeArguments : Rule Tree := do
  let start ← next
  symbol "<"
  let ts ← commaList ">" (ask .typed)
  guard (!ts.isEmpty)
  build .typeNode start ts

/-- A value behind an equals sign. -/
def initializer (setting : Setting) : Rule (List Tree) := do
  if ← equalsSign then pure [← ask (.single setting false)] else pure []

/-! ## Decorators -/

/-- Points and names behind a first name. -/
def namePath (start : Nat) (first : Tree) : Rule Tree :=
  loop (fun (t : Tree) ↦ do
    if ← singlePoint then
      let m ← (privateName <|> anyWord .property)
      pure (.inl (← build .member start [t, m]))
    else pure (.inr t)) first

/-- `@` with a name, a path, a call of one, or anything in parentheses. -/
def decorator : Rule Tree := do
  let start ← next
  symbol "@"
  if ← sees "(" then
    let t ← condition
    build .decorator start [t]
  else
    let from' ← next
    let word ← bindingName
    let path ← namePath from' word
    let types ← if (← isTyped) && (← sees "<") then optional typeArguments else pure none
    if ← sees "(" then
      let args ← arguments
      let called ← build .call from' (path.placed .callee :: types.toList ++ [args])
      build .decorator start [called]
    else build .decorator start [path]

def decorators : Rule (List Tree) :=
  loop (fun (ds : List Tree) ↦ do
    if ← sees "@" then pure (.inl ((← decorator) :: ds)) else pure (.inr ds.reverse)) []

end CodeAtlas.Syntax.Grammar
