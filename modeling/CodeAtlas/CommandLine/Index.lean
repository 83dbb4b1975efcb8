import CodeAtlas.Indexing.Directory
import CodeAtlas.Service.Overview

/-!
# Indexing on request

What the index command does with the stores once they are open: it registers a directory and, if
asked to, summarises every function that has been queued. At the end the stores are counted.
-/

namespace CodeAtlas.CommandLine

/-- Speaks of the commands themselves. -/
def commandName : String := "command_line"

/-- What is said of a command that fails. -/
def failureText (command : String) (e : Fault) : String := s!"Error running {command}: {e.text}"

/-- Registers a directory. -/
def indexOnly (rules : Indexing.IndexRules) (files : FileTree) (root : String) : Program Unit := do
  let _ ← Indexing.registerTree rules files root
  let _ ← Program.request .graphStats

/-- Registers a directory and summarises its functions. -/
def indexAndEnrich (rules : Indexing.IndexRules) (codeLimit : Int) (files : FileTree)
    (root : String) : Program Unit := do
  let _ ← Indexing.registerTree rules files root
  let _ ← Enrichment.drain codeLimit
  let _ ← Overview.find

end CodeAtlas.CommandLine
