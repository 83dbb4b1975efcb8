import CodeAtlas.Text.Quoted

/-!
# Failures

Every way in which an operation can fail, with what is needed to word it. A failure of one stage may
have been caused by a failure of another one, which is then kept inside.
-/

namespace CodeAtlas

/-- Why a file cannot be read. -/
inductive FileFault where
  | missing | isDirectory | notDirectory | tooManyLinks | nameTooLong
  deriving DecidableEq, Repr

namespace FileFault

def number : FileFault → Nat
  | missing => 2
  | notDirectory => 20
  | isDirectory => 21
  | nameTooLong => 36
  | tooManyLinks => 40

def reason : FileFault → String
  | missing => "No such file or directory"
  | notDirectory => "Not a directory"
  | isDirectory => "Is a directory"
  | nameTooLong => "File name too long"
  | tooManyLinks => "Too many levels of symbolic links"

def message (f : FileFault) (path : String) : String :=
  s!"[Errno {f.number}] {f.reason}: {Text.quoted path}"

end FileFault

/-- Why a source has no outline. -/
inductive SourceFault where
  | unsupportedExtension
  | malformed
  | tooDeep
  | unreadable (why : FileFault)
  deriving DecidableEq, Repr

/-- The kinds of failure of services outside this library. -/
inductive OutsideKind where
  | runtime | connection | timeout | value | key
  | constraint | cypherSyntax | transient | unavailable | expired
  deriving DecidableEq, Repr

/-- Failures of a value to be what an operation needs. -/
inductive Mismatch where
  /-- A map lacks the key. -/
  | noEntry (key : String)
  /-- A value of another type was needed. -/
  | wrongType (text : String)
  /-- An operation that the value does not have. -/
  | noOperation (text : String)
  | outOfRange (text : String)
  | badValue (text : String)
  | badPattern (text : String)
  | tooLarge (text : String)
  /-- Nested too deeply. -/
  | tooDeep
  deriving DecidableEq, Repr

/-- One try of the planner: a query and, if it failed, the reason. -/
structure Attempt where
  query : String
  error : Option String
  deriving DecidableEq, Repr

inductive Fault where
  | source (path : String) (why : SourceFault)
  | sourceText (path : String) (message : String) (cause : Option Fault)
  | stage (name : String) (message : String) (cause : Option Fault)
  | graphWrite (message : String) (cause : Option Fault)
  | graphQuery (message : String) (cause : Option Fault)
  | storage (message : String) (cause : Option Fault)
  | enrichment (message : String) (cause : Option Fault)
  | classification (message : String) (cause : Option Fault)
  | generation (query : String) (attempts : List Attempt) (cause : Option Fault)
  | outside (kind : OutsideKind) (text : String)
  | invalidIdentifier (value : String)
  | unsupported (what : String) (value : String)
  | missingApiKey (service : String)
  | badIgnorePattern (line : String)
  | invalidSetting (field : String)
  | mismatch (m : Mismatch)
  deriving Inhabited

namespace SourceFault

def message (path : String) : SourceFault → String
  | unsupportedExtension => "unsupported file extension"
  | malformed => "malformed source"
  | tooDeep => "syntax tree too deep to traverse"
  | unreadable why => "unreadable: " ++ why.message path

end SourceFault

def Mismatch.message : Mismatch → String
  | noEntry key => Text.quoted key
  | wrongType t | noOperation t | outOfRange t | badValue t | badPattern t | tooLarge t => t
  | tooDeep => "maximum recursion depth exceeded"

namespace Fault

/-- A text with the null character is no path. -/
def noPath : Fault := .mismatch (.badValue "embedded null byte")

/-- What a planner says when it has used up its attempts. -/
def generationMessage (attempts : List Attempt) : String :=
  let last := match attempts.getLast? with
    | some a => a.error.getD "None"
    | none => "no attempts were made"
  s!"could not produce a valid query after {attempts.length} attempt(s): {last}"

/-- The stage that failed, for the failures of this library's own stages. -/
def stageName? : Fault → Option String
  | source .. | sourceText .. => some "parse"
  | stage name .. => some name
  | graphWrite .. => some "graph_write"
  | graphQuery .. => some "graph_query"
  | storage .. => some "storage"
  | enrichment .. => some "enrichment"
  | classification .. => some "classification"
  | generation .. => some "generation"
  | _ => none

/-- What happened, without the stage. -/
def message : Fault → String
  | source path why => s!"{path}: {why.message path}"
  | sourceText path text _ => s!"{path}: {text}"
  | stage _ m _ => m
  | graphWrite m _ | graphQuery m _ | storage m _ | enrichment m _ | classification m _ => m
  | generation _ attempts _ => generationMessage attempts
  | outside .key text => Text.quoted text
  | outside _ text => text
  | invalidIdentifier value => s!"Invalid graph identifier: {Text.quoted value}"
  | unsupported what value => s!"Unsupported {what}: {value}"
  | missingApiKey service => s!"OpenAI API key is required for {service}"
  | badIgnorePattern line => s!"Invalid git pattern: {Text.quoted line}"
  | invalidSetting field => s!"invalid setting {field}"
  | mismatch m => m.message

/-- The full text of a failure, with its stage in brackets. -/
def text (f : Fault) : String :=
  match f.stageName? with
  | some name => s!"[{name}] {f.message}"
  | none => f.message

/-- Is it a failure of one of this library's own stages? -/
def isStaged (f : Fault) : Bool := f.stageName?.isSome

end Fault

end CodeAtlas
