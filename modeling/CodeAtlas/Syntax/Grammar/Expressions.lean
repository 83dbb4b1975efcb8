import CodeAtlas.Syntax.Grammar.Functions
import CodeAtlas.Syntax.Grammar.Markup

/-!
# Expressions

An expression is a row of operands with operators between them. The tree groups every row from the
left, whatever the operators' strength: no reader of the tree looks at the grouping, and the order
of the parts in the text is what counts. An assignment belongs to the operand on its left, so it
may also stand behind an operator.

Braces and brackets are read before it is known whether they make a value or a pattern. What only a
pattern can hold (a shorthand name with a default) marks the whole as a pattern, and a pattern is
accepted only where an assignment or a loop follows.
-/

namespace CodeAtlas.Syntax.Grammar

open Rule

/-- Can the tree only be a pattern? -/
def isPatternOnly (t : Tree) : Bool := t.kind == .objectPattern || t.kind == .arrayPattern

/-- Can a value be assigned to the tree? -/
def isTarget (t : Tree) : Bool :=
  isPatternOnly t
    || [Kind.identifier, .undefinedName, .member, .subscript, .nonNull, .parenthesized, .object,
        .array].contains t.kind

/-- Can the tree only stand at the end of a row, with nothing attached to it? -/
def isOpen (t : Tree) : Bool :=
  match t.kind with
  | .unary | .awaited | .yielded | .update => true
  | .arrowFunction => t.children.getLast?.any fun b ↦ b.kind != .block
  | _ => false

/-! ## Objects and arrays -/

/-- An entry of an object, and whether it can only belong to a pattern. -/
def objectItem : Rule (Tree × Bool) := do
  let start ← next
  if ← sees "..." then
    let t ← spreadable true
    pure (t, t.children.any isPatternOnly)
  else
    let from' ← position
    skipMemberModifiers ["get", "set", "async"]
    let star ← trySymbol "*"
    let isPlain := !star && (← position) == from'
    let w ← peekWord
    let name ← memberName
    let _ ← if (← isTyped) && (← sees "?") then trySymbol "?" else pure false
    if (← sees "(") || ((← isTyped) && (← sees "<")) then
      let parts ← signature
      let body ← functionBody
      pure (← build .method start (name :: parts ++ [body]), false)
    else
      guard isPlain
      if ← trySymbol ":" then
        let t ← ask (.single .free true)
        pure (← build .property start [name, t], isPatternOnly t)
      else
        guard (isValueWord (← dialect) w)
        let value ← initializer .free
        pure (← build .property start value, !value.isEmpty)

def objectLiteral : Rule Tree := do
  let start ← next
  symbol "\x7b"
  let (items, isPattern) ← loop (fun (items, isPattern) ↦ do
    if ← trySymbol "\x7d" then pure (.inr (items, isPattern))
    else if ← trySymbol "," then pure (.inl (items, isPattern))
    else
      let (t, onlyPattern) ← objectItem
      let acc := (t :: items, isPattern || onlyPattern)
      if ← trySymbol "," then pure (.inl acc)
      else
        symbol "\x7d"
        pure (.inr acc)) (([] : List Tree), false)
  build (if isPattern then .objectPattern else .object) start items.reverse

def arrayLiteral : Rule Tree := do
  let start ← next
  symbol "["
  let items ← sparseList "]" (spreadable true)
  let isPattern := items.any fun t ↦ isPatternOnly t || t.kind == .unary && t.children.any isPatternOnly
  build (if isPattern then .arrayPattern else .array) start items

/-! ## Primary expressions -/

/-- An expression in parentheses; a typed dialect allows a type behind it. -/
def parenthesized : Rule Tree := do
  let start ← next
  symbol "("
  let t ← ask (.expression .free)
  let types ← optionalType
  symbol ")"
  build .parenthesized start (t :: types)

def wordLeaf (kind : Kind) : Rule Tree := leaf kind Source.wordEnd?

/-- Literals and names that a word stands for. -/
def wordPrimary : Rule Tree := do
  let w ← peekWord
  match w with
  | "this" => wordLeaf .thisName
  | "super" => wordLeaf .superName
  | "true" | "false" | "null" => wordLeaf .literal
  | "import" =>
    let t ← wordLeaf .importName
    guard ((← sees "(") || (← sees "."))
    pure t
  | "function" => functionExpression
  | "class" => classExpression
  | _ =>
    guard (isValueWord (← dialect) w)
    wordLeaf (wordKind w)

/-- What an operand may start with, apart from operators and arrow functions. -/
def primary : Rule Tree := do
  let c ← peek
  if c == '(' then parenthesized
  else if c == '[' then arrayLiteral
  else if c == '\x7b' then objectLiteral
  else if c == '\x60' then template
  else if c == '"' || c == '\'' then stringLiteral
  else if c.isDigit || c == '.' then numberLiteral
  else if c == '/' then regexLiteral
  else if c == '#' then privateName
  else if c == '@' then classExpression
  else wordPrimary

/-! ## Attachments -/

/-- A name behind a point. -/
def memberOf (start : Nat) (t : Tree) : Rule Tree := do
  let m ← (privateName <|> anyWord .property)
  build .member start [t, m]

def subscriptOf (start : Nat) (t : Tree) : Rule Tree := do
  symbol "["
  let index ← ask (.expression .free)
  symbol "]"
  build .subscript start [t, index]

def callOf (start : Nat) (t : Tree) (types : List Tree) : Rule Tree := do
  let args ← arguments
  build .call start (t.placed .callee :: types ++ [args])

/-- Does a token follow that could start an operand, so that `<…>` before it was a comparison? -/
def operandFollows : Rule Bool := do
  let c ← peek
  if ← lineEndAhead then pure false
  else
    let w ← peekWord
    pure ("[\x7b\"'\x60@#~".toList.contains c || c.isDigit
      || (w != "" && !(["as", "satisfies", "in", "instanceof", "of"].contains w)))

/-- What may follow an operand of a typed dialect at `<`: type arguments, with a call or alone. -/
def typedAttachment (start : Nat) (t : Tree) (calls : Bool) : Rule Tree := do
  let types ← typeArguments
  if ← sees "(" then
    guard calls
    callOf start t [types]
  else
    guard (!(← operandFollows) && !(← sees "<") && !(← sees ">") && !(← sees "-") && !(← sees "+"))
    build .nonNull start [t, types]

/-- `?.` with what is reached through it. -/
def optionalAttachment (start : Nat) (t : Tree) (calls : Bool) : Rule Tree := do
  symbol "?."
  if ← sees "(" then
    guard calls
    callOf start t []
  else if ← sees "[" then subscriptOf start t
  else if (← isTyped) && (← sees "<") then
    let types ← typeArguments
    callOf start t [types]
  else memberOf start t

/-- Is this `?.`, and not a conditional with a number behind the question mark? -/
def seesOptional : Rule Bool := fun s i ↦
  let j := s.skip i
  .done (s.startsWith j ['?', '.'] && !(s.char (j + 2)).isDigit) i

/-- One attachment to an operand, if there is one. Calls are left alone behind `new`. -/
def attach (start : Nat) (calls : Bool) (t : Tree) : Rule (Tree ⊕ Tree) := do
  let c ← peek
  if c == '.' then
    if ← singlePoint then pure (.inl (← memberOf start t)) else pure (.inr t)
  else if c == '?' then
    if ← seesOptional then pure (.inl (← optionalAttachment start t calls)) else pure (.inr t)
  else if c == '[' then pure (.inl (← subscriptOf start t))
  else if c == '(' then
    if calls then pure (.inl (← callOf start t [])) else pure (.inr t)
  else if c == '\x60' then
    let text ← template
    pure (.inl (← build .call start [t.placed .callee, text]))
  else if !(← isTyped) then pure (.inr t)
  else if c == '!' then
    if (← sees "!=") || (← lineEndAhead) then pure (.inr t)
    else
      symbol "!"
      pure (.inl (← build .nonNull start [t]))
  else if c == '<' && calls then
    match ← optional (typedAttachment start t calls) with
    | some u => pure (.inl u)
    | none => pure (.inr t)
  else pure (.inr t)

/-! ## Operands that start with a word -/

/-- `new` with a constructor and, perhaps, arguments. Several `new` in a row each take their own. -/
def newExpression : Rule Tree := do
  let start ← next
  keyword "new"
  if ← singlePoint then
    let _ ← anyWord .property
    build .literal start []
  else
    let count ← loop (fun (n : Nat) ↦ do
      if ← tryKeyword "new" then pure (.inl (n + 1)) else pure (.inr n)) 1
    let from' ← next
    let base ← loop (attach from' false) (← primary)
    let (t, _) ← loop (fun (t, (n : Nat)) ↦ do
      if n == 0 then pure (.inr (t, n))
      else
        let types ← if (← isTyped) && (← sees "<") then optional do
            let types ← typeArguments
            guard (!(← operandFollows))
            pure types
          else pure none
        let args ← if ← sees "(" then pure [← arguments] else pure []
        pure (.inl (← build .newExpression start (t :: types.toList ++ args), n - 1))) (base, count)
    pure t

/-- Could the next token start an operand? -/
def startsOperand : Rule Bool := do
  let c ← peek
  let w ← peekWord
  pure ("([\x7b\"'\x60+-!~<@#/".toList.contains c || c.isDigit
    || (w != "" && !(["as", "satisfies", "in", "instanceof", "of"].contains w)))

/-- `await` with its operand. -/
def awaitExpression (setting : Setting) : Rule Tree := do
  let start ← next
  keyword "await"
  guard (!(← lineEndAhead))
  guard ((← startsOperand) && !(← sees "-") && !(← sees "+"))
  let t ← ask (.operand setting)
  build .awaited start [t]

/-- `yield` with its operand, if it has one. -/
def yieldExpression (setting : Setting) : Rule Tree := do
  let start ← next
  keyword "yield"
  if ← trySymbol "*" then
    let t ← ask (.single setting false)
    build .yielded start [t]
  else if (← startsOperand) && !(← lineEndAhead) then
    let t ← ask (.single setting false)
    build .yielded start [t]
  else build .yielded start []

/-- `async` as the start of an arrow function. -/
def asyncArrow (setting : Setting) : Rule Tree := do
  let start ← next
  keyword "async"
  guard (!(← lineEndAhead))
  let c ← peek
  if c == '(' || (c == '<' && (← isTyped)) then arrowFunction setting start
  else shortArrow setting start

/-- A declaration of a resource, `using x = …`, read as an assignment. -/
def usingAssignment (setting : Setting) : Rule Tree := do
  keyword "using"
  guard (!(← lineEndAhead))
  let w ← peekWord
  guard (w != "" && w != "in" && w != "of" && w != "instanceof")
  let t ← ask (.operand setting)
  guard (t.kind == .assignment)
  pure t

/-! ## Operands -/

/-- The words that negate or inspect the operand behind them. -/
def prefixWords : List String := ["typeof", "void", "delete"]

/-- An operator and its operand. -/
def unaryExpression (setting : Setting) : Rule Tree := do
  let start ← next
  if ← trySymbol "++" <||> trySymbol "--" then
    let t ← ask (.operand setting)
    build .update start [t]
  else
    let w ← peekWord
    if w != "" then keyword w
    else
      let i ← next
      moveTo (i + 1)
    let t ← ask (.operand setting)
    build .unary start [t]

/-- Angle brackets where an operand starts: type parameters of an arrow function, a type assertion,
or markup. -/
def angleOperand (setting : Setting) : Rule Tree := do
  let start ← next
  match ← dialect with
  | .javascript => ask .element
  | .tsx => arrowFunction setting start <|> ask .element
  | .typescript => arrowFunction setting start <|> do
    let types ← typeArguments
    let t ← ask (.operand setting)
    build .unary start [types, t]

/-- An operand that starts with a word. -/
def wordOperand (setting : Setting) (w : String) : Rule Tree := do
  let start ← next
  if prefixWords.contains w then unaryExpression setting
  else if w == "new" then newExpression
  else if w == "await" then awaitExpression setting <|> shortArrow setting start <|> wordPrimary
  else if w == "yield" then yieldExpression setting
  else if w == "async" then
    if ← startsFunction then functionExpression
    else asyncArrow setting <|> shortArrow setting start <|> wordPrimary
  else if w == "using" then usingAssignment setting <|> shortArrow setting start <|> wordPrimary
  else if isValueWord (← dialect) w && (← ahead (do let _ ← wordLeaf .identifier; symbol "=>")) then
    shortArrow setting start
  else wordPrimary

/-- The first part of an operand, without what is attached to it. -/
def operandHead (setting : Setting) : Rule Tree := do
  let c ← peek
  let start ← next
  if "!~+-".toList.contains c then unaryExpression setting
  else if c == '<' then angleOperand setting
  else if c == '(' then
    if ← mayBeParameters then arrowFunction setting start <|> parenthesized else parenthesized
  else
    let w ← peekWord
    if w == "" then primary else wordOperand setting w

/-- An operator that assigns to the operand before it, if one comes next. -/
def assignmentSign (t : Tree) : Rule Bool := do
  if !isTarget t then pure false
  else if ← equalsSign then pure true
  else
    let s ← source
    let i ← next
    match s.firstOf i Source.assignmentOperators with
    | some op =>
      moveTo (i + op.length)
      pure true
    | none => pure false

/-- An operand: what the phrase of that name is. -/
def operandRule (setting : Setting) : Rule Tree := do
  operandGap
  let start ← position
  let head ← operandHead setting
  if isOpen head then pure head
  else
    let t ← loop (attach start true) head
    if ((← sees "++") || (← sees "--")) && !(← lineEndAhead) then
      let _ ← trySymbol "++" <||> trySymbol "--"
      build .update start [t]
    else if ← assignmentSign t then
      let value ← ask (.single setting false)
      build .assignment start [t, value]
    else pure t

/-! ## Rows of operands -/

/-- Reads an operator between two operands, if one comes next. -/
def binaryOperator (setting : Setting) : Rule Bool := do
  let s ← source
  let i ← next
  let w := s.wordAt i
  if w == "instanceof" || (w == "in" && !setting.noIn) then tryKeyword w
  else if (s.firstOf i ("=>" :: "++" :: "--" :: Source.assignmentOperators)).isSome then pure false
  else
    match s.firstOf i Source.binaryOperators with
    | some op =>
      moveTo (i + op.length)
      pure true
    | none => pure false

/-- Is this the question mark of a conditional? -/
def seesConditional : Rule Bool := do
  pure ((← sees "?") && !(← sees "??") && !(← seesOptional))

/-- The two branches of a conditional. If an arrow function in the first branch took the colon for
its result type, it is read again without one. -/
def branches (setting : Setting) : Rule (List Tree) := do
  symbol "?"
  let first (plain : Bool) : Rule Tree := do
    let t ← ask (.single ⟨false, plain⟩ false)
    symbol ":"
    pure t
  let yes ← if ← isTyped then first false <|> first true else first false
  let no ← ask (.single setting false)
  pure [yes, no]

/-- One expression: what the phrase of that name is. -/
def singleRule (setting : Setting) (cover : Bool) : Rule Tree := do
  operandGap
  let start ← position
  let first ← ask (.operand setting)
  let t ← loop (fun (t : Tree) ↦ do
    if isPatternOnly t then pure (.inr t)
    else if ← binaryOperator setting then
      let right ← ask (.operand setting)
      guard (!isPatternOnly right)
      pure (.inl (← build .binary start [t, right]))
    else if ← seesConditional then
      let parts ← branches setting
      pure (.inl (← build .conditional start (t :: parts)))
    else if ← isTyped <&&> (not <$> lineEndAhead)
        <&&> (tryKeyword "as" <||> tryKeyword "satisfies") then
      let type ← ask .typed
      pure (.inl (← build .binary start [t, type]))
    else pure (.inr t)) first
  guard (cover || !isPatternOnly t)
  pure t

/-- Expressions with commas between them: what the phrase of that name is. -/
def expressionRule (setting : Setting) : Rule Tree := do
  operandGap
  let start ← position
  let first ← ask (.single setting false)
  if ← sees "," then
    let rest ← loop (fun (items : List Tree) ↦ do
      if ← trySymbol "," then pure (.inl ((← ask (.single setting false)) :: items))
      else pure (.inr items.reverse)) []
    build .sequence start (first :: rest)
  else pure first

end CodeAtlas.Syntax.Grammar
