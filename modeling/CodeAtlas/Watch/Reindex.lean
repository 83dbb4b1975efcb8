import CodeAtlas.Indexing.Directory

/-!
# Dealing with a changed file

A changed file is registered again, its functions are queued although they may have records, and the
graph is saved. If that fails, it is reported; the next change of the file is another chance.
-/

namespace CodeAtlas.Watch

open Program

def watcherName : String := "watcher"

/-- Registers a changed file. -/
def reindex (rules : Indexing.IndexRules) (files : FileTree) (path : String) : Program Unit := do
  let _ ← Indexing.registerPath (rules.reparsing true) files path
  request .flushGraph

/-- Reports the failure of what is done about a changed file. -/
def guarded (path : String) (work : Program Unit) : Program Unit := do
  match ← work.attempt with
  | .ok () => pure ()
  | .error e => report watcherName s!"Error re-indexing {path}: {e.text}"

end CodeAtlas.Watch
