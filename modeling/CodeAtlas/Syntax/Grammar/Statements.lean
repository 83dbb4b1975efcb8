import CodeAtlas.Syntax.Grammar.Modules

/-!
# Statements

The statements of a program, told apart by their first word. A function or class at the start of a
statement is a declaration unless the text behind it can only continue an expression.
-/

namespace CodeAtlas.Syntax.Grammar

open Rule

/-! ## Expression statements and blocks -/

def expressionStatement : Rule Tree := do
  let start ← next
  let t ← ask (.expression .free)
  semicolon true
  build .expressionStatement start [t]

/-- A block: what the phrase of that name is. -/
def blockRule : Rule Tree := do
  let start ← next
  symbol "\x7b"
  let items ← loop (fun (items : List Tree) ↦ do
    operandGap
    if ← trySymbol "\x7d" then pure (.inr items.reverse)
    else pure (.inl ((← ask .statement) :: items))) []
  build .block start items

/-- Can the next token only continue an expression? -/
def continuesExpression : Rule Bool := do
  let s ← source
  let i ← next
  let w := s.wordAt i
  if w == "in" || w == "instanceof" then pure true
  else if s.char i == '.' then pure (!(s.char (i + 1)).isDigit)
  else pure (s.firstOf i [",", "?", "*", "%", "=", "!=", "&", "|", "^", ">", "<=", "<<"]).isSome

/-- A declaration, unless it turns out to be the start of an expression. -/
def declarationOrExpression (r : Rule Tree) : Rule Tree := do
  let start ← position
  let t ← r
  if (← endsHere true) || !(← continuesExpression) then pure t
  else
    moveTo start
    expressionStatement

/-! ## Control flow -/

def ifStatement : Rule Tree := do
  let start ← next
  keyword "if"
  let test ← condition
  let yes ← ask .statement
  let no ← if ← tryKeyword "else" then pure [← ask .statement] else pure []
  build .statement start (test :: yes :: no)

def whileStatement : Rule Tree := do
  let start ← next
  keyword "while"
  let test ← condition
  let body ← ask .statement
  build .statement start [test, body]

def doStatement : Rule Tree := do
  let start ← next
  keyword "do"
  let body ← ask .statement
  keyword "while"
  let test ← condition
  let _ ← optional (semicolon false)
  build .statement start [body, test]

/-- What a loop head holds behind a word like `of`. -/
def loopSource : Rule Tree := do
  guard (← tryKeyword "of" <||> tryKeyword "in")
  ask (.expression .free)

/-- An expression that may be missing, up to a closing text. -/
def optionalExpression (closing : String) : Rule (List Tree) := do
  if ← trySymbol closing then pure []
  else
    let t ← ask (.expression .free)
    symbol closing
    pure [t]

/-- The condition and the step of a counting loop. -/
def loopTest : Rule (List Tree) := do
  let test ← optionalExpression ";"
  let step ← optionalExpression ")"
  pure (test ++ step)

/-- The setting of an expression at the start of a loop head. -/
def headSetting : Setting := ⟨true, false⟩

/-- A loop head that introduces variables. -/
def declaringHead : Rule (List Tree) := do
  variableWord
  let first ← declarator headSetting
  (do let t ← loopSource
      symbol ")"
      pure [first, t]) <|> do
    let rest ← if ← trySymbol "," then commaItems (declarator headSetting) else pure []
    symbol ";"
    pure (first :: rest ++ (← loopTest))

/-- A loop head without variables of its own. -/
def plainHead : Rule (List Tree) := do
  if ← trySymbol ";" then loopTest
  else
    (do let t ← ask (.operand headSetting)
        guard (isTarget t)
        let u ← loopSource
        symbol ")"
        pure [t, u]) <|> do
      let t ← ask (.expression headSetting)
      symbol ";"
      pure (t :: (← loopTest))

def forStatement : Rule Tree := do
  let start ← next
  keyword "for"
  let _ ← tryKeyword "await"
  symbol "("
  let head ← declaringHead <|> plainHead
  let body ← ask .statement
  build .statement start (head ++ [body])

/-- Statements up to the next case or the end of the switch. -/
def caseBody : Rule (List Tree) :=
  loop (fun (items : List Tree) ↦ do
    let w ← peekWord
    if (← sees "\x7d") || w == "case" || w == "default" then pure (.inr items.reverse)
    else pure (.inl ((← ask .statement) :: items))) []

def switchCase : Rule Tree := do
  let start ← next
  let value ← if ← tryKeyword "case" then pure [← ask (.expression .free)] else
    keyword "default"
    pure []
  symbol ":"
  let body ← caseBody
  build .statement start (value ++ body)

def switchStatement : Rule Tree := do
  let start ← next
  keyword "switch"
  let value ← condition
  symbol "\x7b"
  let cases ← loop (fun (items : List Tree) ↦ do
    if ← trySymbol "\x7d" then pure (.inr items.reverse)
    else pure (.inl ((← switchCase) :: items))) []
  build .statement start (value :: cases)

def catchClause : Rule (List Tree) := do
  keyword "catch"
  let caught ←
    if ← trySymbol "(" then
      let p ← ask .pattern
      let types ← optionalType
      symbol ")"
      pure (p :: types)
    else pure []
  pure (caught ++ [← ask .block])

def tryStatement : Rule Tree := do
  let start ← next
  keyword "try"
  let body ← ask .block
  let handler ← if (← peekWord) == "catch" then catchClause else pure []
  let final ← if ← tryKeyword "finally" then pure [← ask .block] else pure []
  build .statement start (body :: handler ++ final)

/-- A jump, with a label if one follows on the same line. -/
def jumpStatement (w : String) : Rule Tree := do
  let start ← next
  keyword w
  if !(← endsHere false) && !(← sees ";") then
    let _ ← bindingName
  semicolon false
  build .statement start []

def returnStatement : Rule Tree := do
  let start ← next
  keyword "return"
  if (← endsHere false) || (← sees ";") then
    semicolon false
    build .statement start []
  else
    let t ← ask (.expression .free)
    semicolon true
    build .statement start [t]

def throwStatement : Rule Tree := do
  let start ← next
  keyword "throw"
  let t ← ask (.expression .free)
  semicolon true
  build .statement start [t]

def withStatement : Rule Tree := do
  let start ← next
  keyword "with"
  let t ← condition
  let body ← ask .statement
  build .statement start [t, body]

def labelledStatement : Rule Tree := do
  let start ← next
  let _ ← bindingName
  symbol ":"
  let body ← ask .statement
  build .statement start [body]

/-! ## All statements -/

/-- Keywords that are statements of their own and never start an expression. -/
def keywordStatement? : String → Option (Rule Tree)
  | "if" => some ifStatement
  | "for" => some forStatement
  | "while" => some whileStatement
  | "do" => some doStatement
  | "switch" => some switchStatement
  | "try" => some tryStatement
  | "with" => some withStatement
  | "return" => some returnStatement
  | "throw" => some throwStatement
  | "break" => some (jumpStatement "break")
  | "continue" => some (jumpStatement "continue")
  | "debugger" => some do
    let start ← next
    keyword "debugger"
    semicolon false
    build .statement start []
  | "var" => some variableDeclaration
  | "const" => some (plainDeclaration false)
  | "export" => some exportStatement
  | _ => none

/-- Words that start a declaration in a typed dialect and nothing else there. -/
def declaringWords : List String := ["interface", "enum", "abstract"]

/-- Words that start a declaration in some places and are plain names in others. -/
def softWords : List String :=
  ["let", "using", "await", "type", "namespace", "module", "declare"]

/-- Is the word followed by a colon, as a label is? -/
def isLabel (w : String) : Rule Bool := do
  if w == "" || reservedWords.contains w then pure false
  else ahead do
    let _ ← anyWord .identifier
    symbol ":"

def wordStatement (w : String) : Rule Tree := do
  match keywordStatement? w with
  | some r => r
  | none =>
    if ← startsFunction then declarationOrExpression (functionDeclaration false)
    else if w == "class" then declarationOrExpression classDeclaration
    else if w == "import" then importStatement <|> importAlias <|> expressionStatement
    else if (← isTyped) && declaringWords.contains w then plainDeclaration false
    else if ← isLabel w then labelledStatement
    else if softWords.contains w then declaration false <|> expressionStatement
    else expressionStatement

/-- A statement: what the phrase of that name is. -/
def statementRule : Rule Tree := do
  operandGap
  let c ← peek
  if c == '\x7b' then ask .block <|> expressionStatement
  else if c == ';' then
    let start ← next
    symbol ";"
    build .statement start []
  else if c == '@' then exportStatement <|> classDeclaration <|> expressionStatement
  else
    let w ← peekWord
    if w == "" then expressionStatement else wordStatement w

/-! ## Programs -/

/-- A line at the very start of a program that names its interpreter. -/
def interpreterLine : Rule Unit := do
  let s ← source
  let i ← next
  if s.startsWith i ['#', '!'] then moveTo (s.lineEnd i)

/-- All statements, and a tree for the rest of the text if it holds none. -/
def programRule : Rule Tree := do
  interpreterLine
  let s ← source
  let items ← loop (fun (items : List Tree) ↦ do
    operandGap
    if ← atEnd then pure (.inr items.reverse)
    else
      match ← optional (ask .statement) with
      | some t => pure (.inl (t :: items))
      | none =>
        let i ← position
        pure (.inr (Tree.node .failed none ⟨i, s.size⟩ [] :: items).reverse)) []
  pure (.node .program none ⟨0, s.size⟩ items)

/-- The rule for each phrase. -/
def ruleOf : Goal → Rule Tree
  | .statement => statementRule
  | .block => blockRule
  | .expression setting => expressionRule setting
  | .single setting cover => singleRule setting cover
  | .operand setting => operandRule setting
  | .pattern => patternRule
  | .typed => typeRule
  | .element => elementRule

end CodeAtlas.Syntax.Grammar

namespace CodeAtlas.Syntax

/-- The tree of a source. What cannot be read is a tree of kind `failed` under the root. -/
def Source.tree (s : Source) : Tree :=
  match answer Grammar.ruleOf s (400 * (s.size + 100)) [] (Grammar.programRule s 0) with
  | some (t, _) => t
  | none => .node .program none ⟨0, s.size⟩ [.node .failed none ⟨0, s.size⟩ []]

/-- Is the whole text well formed? -/
def Tree.isWellFormed (t : Tree) : Bool := t.children.all fun c ↦ c.kind != .failed

end CodeAtlas.Syntax
