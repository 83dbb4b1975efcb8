import CodeAtlas.Files.Scan

/-!
# Which changes are watched

A changed file is watched if it could be a source: its extension is one of the sources', it lies
below the root, and neither one of the patterns nor the ignore file at the root leaves it out. The
patterns look at the path from the root on, so it does not matter where the root itself lies.
-/

namespace CodeAtlas

structure WatchRules where
  root : String
  /-- In small letters. -/
  extensions : List String
  /-- What must not occur in the path from the root on. -/
  patterns : List Pattern.Regex
  ignores : String → Bool

namespace WatchRules

/-- The path from the root on, if the path lies below the root. -/
def relative? (root path : String) : Option String :=
  (Path.below? root path).map fun names ↦
    if names.isEmpty then "." else String.intercalate "/" names

def accepts (rules : WatchRules) (path : String) : Bool :=
  Scan.hasExtension rules.extensions path
    && match relative? rules.root path with
      | none => false
      | some relative =>
        !(rules.patterns.any fun r ↦ r.occursIn relative) && !rules.ignores relative

def readPatterns (patterns : List String) : Except Fault (List Pattern.Regex) :=
  patterns.mapM fun p ↦ (Pattern.Regex.read p).mapError .mismatch

/-- The rules for a directory. -/
def of (files : FileTree) (root : String) (extensions : List String) (patterns : List Pattern.Regex)
    (ignores : String → Bool) : WatchRules :=
  ⟨files.realPath root, extensions.map Text.lowerCase, patterns, ignores⟩

/-- The rules for a directory, from patterns that are still to be read and the ignore file there. -/
def make (files : FileTree) (root : String) (extensions patterns : List String) :
    Except Fault WatchRules := do
  let patterns ← readPatterns patterns
  let ignored ← files.ignoreRules? (files.realPath root)
  pure (of files root extensions patterns (FileTree.ignoredBy ignored))

end WatchRules

end CodeAtlas
