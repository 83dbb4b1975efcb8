import CodeAtlas.Datum
import CodeAtlas.Fault
import CodeAtlas.Path
import CodeAtlas.Syntax.Grammar.Statements
import CodeAtlas.Text.Blank
import CodeAtlas.Text.Utf8

/-!
# Outlines

What the rest of the library wants to know of a source: the names it imports, with the modules they
come from, and its top-level functions, each with its text, its lines and the names it calls.

A walk over the tree stops at imports and functions. A function counts if it stands at the top of
the program or is exported there; whatever lies inside another function does not. Calls, on the
other hand, are collected at every depth of a function's body.
-/

namespace CodeAtlas.Syntax

/-- A name taken from another module. -/
structure Import where
  clause : String
  source : String
  deriving DecidableEq, Repr

/-- A top-level function. Lines are counted from one. -/
structure Function where
  name : String
  path : String
  text : String
  startLine : Nat
  endLine : Nat
  calls : List String
  deriving DecidableEq, Repr

/-- A function's name and file, which together tell it from all others. -/
abbrev FunctionKey := String × String

def Function.key (f : Function) : FunctionKey := (f.name, f.path)

structure Outline where
  path : String
  imports : List Import
  functions : List Function
  deriving DecidableEq, Repr

/-! ## As plain data -/

instance : ToDatum Import := ⟨fun i ↦ .map [("clause", .text i.clause), ("source", .text i.source)]⟩

/-- A function without its text. -/
def Function.summaryProps (f : Function) : Props :=
  [("name", .text f.name), ("path", .text f.path), ("start_line", .int f.startLine),
    ("end_line", .int f.endLine), ("calls", .list (f.calls.map .text))]

/-- An outline, with or without the texts of its functions. -/
def Outline.toDatum (withText : Bool) (o : Outline) : Datum :=
  let form (f : Function) : Datum :=
    .map (f.summaryProps ++ if withText then [("text", .text f.text)] else [])
  .map [("path", .text o.path), ("imports", ToDatum.toDatum o.imports),
    ("functions", .list (o.functions.map form))]

/-- The elements of a list without those that occurred before. -/
def distinct {α : Type} [BEq α] (xs : List α) : List α :=
  (xs.foldl (fun acc x ↦ if acc.contains x then acc else x :: acc) []).reverse

namespace Tree

/-! ## Declarations -/

/-- Where a tree stands with respect to the program. -/
inductive Place where
  /-- A statement of the program. -/
  | top
  /-- Below an export that is a statement of the program. -/
  | exported
  | inner
  deriving DecidableEq, Repr

/-- The place of the children of a tree of the given kind. -/
def Place.below (place : Place) (kind : Kind) : Place :=
  if kind == .program then .top
  else if kind == .exportStatement && place == .top then .exported
  else .inner

/-- Kinds at which the walk stops. -/
def isDeclaring (kind : Kind) : Bool :=
  kind == .importStatement || kind == .functionDeclaration || kind == .generatorDeclaration

mutual

/-- The imports and functions that the walk meets, in text order, with their places. -/
def declarations (place : Place) : Tree → List (Place × Tree)
  | .node k r s cs =>
    if isDeclaring k then [(place, .node k r s cs)] else declarationsAll (place.below k) cs

def declarationsAll (place : Place) : List Tree → List (Place × Tree)
  | [] => []
  | t :: ts => declarations place t ++ declarationsAll place ts

end

/-! ## Calls -/

/-- The name that a tree calls, if it is a call of a plain name. -/
def callee? (t : Tree) : Option Tree :=
  if t.kind == .call then
    match t.child? .callee with
    | some c => if c.kind == .identifier then some c else none
    | none => none
  else none

mutual

/-- The names called anywhere in a tree, an outer call before the ones inside it. -/
def callees : Tree → List Tree
  | .node k r s cs => (callee? (.node k r s cs)).toList ++ calleesAll cs

def calleesAll : List Tree → List Tree
  | [] => []
  | t :: ts => callees t ++ calleesAll ts

end

/-! ## Depth -/

mutual

/-- Is the tree no deeper than the given number of levels? -/
def fits : Nat → Tree → Bool
  | _, .node _ _ _ [] => true
  | 0, .node _ _ _ (_ :: _) => false
  | n + 1, .node _ _ _ (c :: cs) => fitsAll n (c :: cs)

def fitsAll : Nat → List Tree → Bool
  | _, [] => true
  | n, t :: ts => fits n t && fitsAll n ts

end

/-- Is the tree a function that counts? -/
def isTopFunction (place : Place) (t : Tree) : Bool :=
  (t.kind == .functionDeclaration || t.kind == .generatorDeclaration) && place != .inner

mutual

/-- Does the walk for declarations, and in a function that counts the walk for calls, stay within
the given number of levels? -/
def walkFits : Nat → Place → Tree → Bool
  | n, place, .node k r s cs =>
    if isDeclaring k then
      let t := Tree.node k r s cs
      if isTopFunction place t && (t.child? .name).isSome then
        match t.child? .body with
        | some body => fits n body
        | none => true
      else true
    else
      match n with
      | 0 => cs.isEmpty
      | n + 1 => walkFitsAll n (place.below k) cs

def walkFitsAll : Nat → Place → List Tree → Bool
  | _, _, [] => true
  | n, place, t :: ts => walkFits n place t && walkFitsAll n place ts

end

end Tree

/-! ## Reading the findings -/

namespace Outline

/-- The deepest walk that is made. -/
def maxDepth : Nat := 900

/-- The text of a tree. -/
def textOf (s : Source) (t : Tree) : String := s.slice t.span.start t.span.stop

/-- A name as it is, or a string without its quotes. -/
def unquoted (text : String) : String :=
  Text.stripChars (fun c ↦ c == '\'' || c == '"' || c == '\x60') text

/-- The names that a part of an import clause takes over. -/
def bindingNames (text : Tree → String) (t : Tree) : List String :=
  if t.kind == .identifier then [text t]
  else if t.kind == .namedImports then
    (t.children.filter fun c ↦ c.kind == .importSpecifier).filterMap fun c ↦
      (c.child? .name).map fun n ↦ unquoted (text n)
  else []

/-- The names that an import statement takes over. -/
def clauses (text : Tree → String) (t : Tree) : List String :=
  (t.children.filter fun c ↦ c.kind == .importClause).flatMap fun c ↦
    c.children.flatMap (bindingNames text)

/-- The imports of an import statement. `resolve` says what a specifier names, if it can name
anything; otherwise there is no answer, whatever the statement takes over. -/
def importsOf (resolve : String → Option String) (text : Tree → String) (t : Tree) :
    Option (List Import) :=
  if t.kind == .importStatement then
    match t.child? .source with
    | some source => do
      let module ← resolve (unquoted (text source))
      pure ((clauses text t).map fun clause ↦ ⟨clause, module⟩)
    | none => some []
  else some []

/-- The line of a position, counted from one. -/
def lineAt (s : Source) (i : Nat) : Nat :=
  (s.chars.foldl (fun n c ↦ if c == '\n' then n + 1 else n) 0 0 i) + 1

/-- The distinct names called in a body. -/
def callNames (text : Tree → String) (body : Tree) : List String :=
  distinct (body.callees.map text)

/-- The function that a tree declares at its place, if it counts. -/
def functionOf (s : Source) (path : String) (found : Tree.Place × Tree) : Option Function :=
  let (place, t) := found
  if t.isTopFunction place then
    (t.child? .name).map fun name ↦
      { name := textOf s name
        path
        text := textOf s t
        startLine := lineAt s t.span.start
        endLine := lineAt s t.span.stop
        calls := match t.child? .body with
          | some body => callNames (textOf s) body
          | none => [] }
  else none

/-- The outline of a tree, if every specifier in it can name something. -/
def ofTree (resolve : String → Option String) (path : String) (s : Source) (t : Tree) :
    Option Outline := do
  let found := t.declarations .inner
  let imports ← found.mapM fun f ↦ importsOf resolve (textOf s) f.2
  pure { path, imports := distinct imports.flatten, functions := found.filterMap (functionOf s path) }

end Outline

/-! ## Sources -/

/-- How the dialect of a file is known from its extension. -/
def Dialect.ofExtension? : String → Option Dialect
  | ".ts" | ".mts" | ".cts" => some .typescript
  | ".tsx" => some .tsx
  | ".js" | ".jsx" | ".mjs" | ".cjs" => some .javascript
  | _ => none

/-- The dialect of a file, if its extension is one of the known ones. -/
def dialect? (exts : Path.Extensions) (path : String) : Option Dialect :=
  let ending := Text.lowerCase (Path.suffix path)
  if exts.known.contains ending then Dialect.ofExtension? ending else none

/-- What a reader of sources accepts. -/
structure SourceRules extends Path.Extensions where
  /-- Refuse a source that is not well formed, and do not read what can be read of it. -/
  refusesMalformed : Bool

/-- The outline of a source text. `locate` gives the key of a path; a specifier that would name a
file but is no path is a failure. -/
def SourceRules.outline (rules : SourceRules) (locate : String → String) (path : String)
    (bytes : List UInt8) : Except Fault Outline :=
  match dialect? rules.toExtensions path with
  | none => .error (.source path .unsupportedExtension)
  | some dialect =>
    let source : Source := ⟨(Text.decodeReplacing bytes).toArray, dialect⟩
    let tree := source.tree
    if rules.refusesMalformed && !tree.isWellFormed then .error (.source path .malformed)
    else if !tree.walkFits Outline.maxDepth .inner then .error (.source path .tooDeep)
    else
      let resolve := Path.resolveWith (Path.keyed locate) rules.toExtensions path
      match Outline.ofTree resolve path source tree with
      | some outline => .ok outline
      | none => .error .noPath

end CodeAtlas.Syntax
