import CodeAtlas.Syntax.Grammar.Names

/-!
# Markup

Elements inside an expression. Between an opening and a closing tag the text is not made of tokens:
everything up to the next tag, brace or character reference is content. The names of the two tags
are not compared.
-/

namespace CodeAtlas.Syntax.Grammar

open Rule

/-- A part of a tag name: a word that may go on with dashes. -/
def tagWordEnd? (s : Source) (i : Nat) : Option Nat :=
  (s.wordEnd? i).map fun j ↦
    if s.char j == '-' then
      s.spanWhile (fun c ↦ c.isAlphanum || c == '_' || c == '$' || c == '-') j
    else j

def tagWord : Rule Tree := leaf .property tagWordEnd?

/-- A tag name: a word, a path, or two words with a colon. -/
def tagName : Rule Tree := do
  let start ← next
  let first ← tagWord
  if ← trySymbol ":" then
    let second ← tagWord
    build .property start [first, second]
  else namePath start first

/-- The position behind a character reference that starts here. -/
def referenceEnd? (s : Source) (i : Nat) : Option Nat :=
  let closed (j : Nat) (least most start : Nat) : Option Nat :=
    if start + least ≤ j && j ≤ start + most && s.char j == ';' then some (j + 1) else none
  if s.char (i + 1) == '#' then
    if s.char (i + 2) == 'x' || s.char (i + 2) == 'X' then
      closed (s.spanWhile Source.isHexDigit (i + 3)) 1 6 (i + 3)
    else closed (s.spanWhile Char.isDigit (i + 2)) 1 5 (i + 2)
  else closed (s.spanWhile Char.isAlpha (i + 1)) 1 30 (i + 1)

/-- The position behind the closing quote of an attribute; `fuel` bounds the references. -/
def attributeRun (s : Source) (quote : Char) : Nat → Nat → Option Nat
  | 0, _ => none
  | fuel + 1, i =>
    let j := s.spanWhile (fun c ↦ c != quote && c != '&') i
    if s.atEnd j then none
    else if s.char j == quote then some (j + 1)
    else
      let c := s.char (j + 1)
      if c == '#' || c.isAlpha then
        match referenceEnd? s j with
        | some k => attributeRun s quote fuel k
        | none => none
      else attributeRun s quote fuel (j + 1)

def attributeText : Rule Tree := leaf .string fun s i ↦
  if s.char i == '"' || s.char i == '\'' then attributeRun s (s.char i) (s.size - i + 1) (i + 1)
  else none

/-- An expression in braces; the braces may be empty. -/
def embedded : Rule Tree := do
  let start ← next
  symbol "\x7b"
  if ← trySymbol "\x7d" then build .markup start []
  else
    let t ← if ← sees "..." then spreadable false else ask (.expression .free)
    symbol "\x7d"
    build .markup start [t]

/-- An attribute, with or without a value. -/
def markupAttribute : Rule Tree := do
  let start ← next
  let name ← tagWord
  let more ← if ← trySymbol ":" then pure [← tagWord] else pure []
  if ← trySymbol "=" then
    let c ← peek
    let value ← if c == '\x7b' then embedded else if c == '<' then ask .element else attributeText
    build .markup start (name :: more ++ [value])
  else build .markup start (name :: more)

/-- The content up to the closing tag, which is read too. -/
def markupContent : Rule (List Tree) :=
  loop (fun (parts : List Tree) ↦ do
    let s ← source
    let i ← position
    let j := s.spanWhile (fun c ↦ !"<>\x7b\x7d&".toList.contains c) i
    guard (!s.atEnd j)
    let c := s.char j
    moveTo j
    if c == '&' then
      match referenceEnd? s j with
      | some k =>
        moveTo k
        pure (.inl parts)
      | none => fail
    else if c == '\x7b' then
      let t ← embedded
      pure (.inl (t :: parts))
    else
      guard (c == '<')
      if s.char (s.skip (j + 1)) == '/' then
        symbol "<"
        symbol "/"
        if !(← sees ">") then
          let _ ← tagName
        symbol ">"
        pure (.inr parts.reverse)
      else
        let t ← ask .element
        pure (.inl (t :: parts))) []

/-- An element: what the phrase of that name is. -/
def elementRule : Rule Tree := do
  let start ← next
  symbol "<"
  if ← trySymbol ">" then
    let parts ← markupContent
    build .markup start parts
  else
    let name ← tagName
    let types ← if (← isTyped) && (← sees "<") then pure [← typeArguments] else pure []
    let attributes ← loop (fun (items : List Tree) ↦ do
      if (← sees "/") || (← sees ">") then pure (.inr items.reverse)
      else if ← sees "\x7b" then pure (.inl ((← embedded) :: items))
      else pure (.inl ((← markupAttribute) :: items))) []
    if ← trySymbol "/" then
      symbol ">"
      build .markup start (name :: types ++ attributes)
    else
      symbol ">"
      let parts ← markupContent
      build .markup start (name :: types ++ attributes ++ parts)

end CodeAtlas.Syntax.Grammar
