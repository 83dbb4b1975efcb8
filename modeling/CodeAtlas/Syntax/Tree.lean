/-!
# Syntax trees

A tree has a kind, the part of the text it covers, its place in its parent where that place has a
name, and its children in text order. Punctuation and keywords are not kept: they carry nothing
that the parts around them do not already say. Spans count characters of the decoded text.
-/

namespace CodeAtlas.Syntax

/-- What a tree stands for. Kinds that no reader tells apart share one name. -/
inductive Kind where
  | program | failed
  -- modules
  | importStatement | importClause | namedImports | importSpecifier | namespaceImport
  | importRequire | importAlias | exportStatement | exportClause
  -- declarations
  | functionDeclaration | generatorDeclaration | functionSignature | classDeclaration
  | variableDeclaration | typeDeclaration | moduleDeclaration
  -- other statements
  | statement | block | expressionStatement
  -- names and literals
  | identifier | undefinedName | thisName | superName | importName | privateName
  | string | template | literal | object | array | objectPattern | arrayPattern
  -- expressions
  | functionExpression | arrowFunction | classExpression | call | newExpression | member
  | subscript | nonNull | parenthesized | unary | update | binary | conditional | assignment
  | awaited | yielded | sequence | markup
  -- parts
  | arguments | parameters | parameter | property | method | classBody | heritage | decorator
  | typeNode
  deriving DecidableEq, Repr, Inhabited

/-- The named places of a child in its parent. -/
inductive Role where
  | name | source | body | callee
  deriving DecidableEq, Repr

/-- A part of the text, from `start` up to and without `stop`. -/
structure Span where
  start : Nat
  stop : Nat
  deriving DecidableEq, Repr, Inhabited

inductive Tree where
  | node (kind : Kind) (role : Option Role) (span : Span) (children : List Tree)
  deriving Inhabited

namespace Tree

def kind : Tree → Kind
  | node k _ _ _ => k

def role : Tree → Option Role
  | node _ r _ _ => r

def span : Tree → Span
  | node _ _ s _ => s

def children : Tree → List Tree
  | node _ _ _ cs => cs

/-- The same tree in a named place. -/
def placed (r : Role) : Tree → Tree
  | node k _ s cs => node k (some r) s cs

/-- The first child in a named place. -/
def child? (t : Tree) (r : Role) : Option Tree :=
  t.children.find? fun c ↦ c.role == some r

end Tree

end CodeAtlas.Syntax
