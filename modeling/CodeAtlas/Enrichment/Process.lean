import CodeAtlas.Program
import CodeAtlas.Query.Prompt
import CodeAtlas.Query.Reply
import CodeAtlas.Text.Cut

/-!
# Summarising the functions in the queue

One function at a time: a summary is asked for, the summary is embedded, and both are stored. If one
of these steps fails, or the summary is empty, the steps after it are left out and the function is
recorded as failed; it is not queued again by itself.
-/

namespace CodeAtlas.Enrichment

open Program

def queueName : String := "enrichment_queue"

/-- A completion of a prompt, without the reasoning that came with it. -/
def complete (prompt : String) : Program String := do
  pure (Reply.withoutReasoning (← request (.complete prompt)))

/-- A summary of a function; only the beginning of a long function is shown to the model. -/
def summarize (limit : Int) (code : String) : Program String :=
  complete (Prompt.summary (Text.cut limit code))

/-- Offers a function to the queue; answers whether it is waiting now. -/
def offer (item : Item) (force : Bool) : Program Bool := do
  match ← request (.offer item force) with
  | .pending => pure true
  | .alreadyProcessed => pure false
  | .full => do
    let stats ← request .queueStats
    warn queueName s!"Enrichment queue full ({stats.capacity}), dropping {item.name} ({item.path})"
    pure false

/-- Any failure of a step is a failure of the enrichment. -/
def orEnrichmentFault {α : Type} (p : Program α) (what : String) (item : Item) : Program α := do
  match ← p.attempt with
  | .ok a => pure a
  | .error e => .fail (.enrichment s!"{what} failed for {item.name} ({item.path}): {e.text}" (some e))

/-- The record of a function with its summary and embedding. -/
def recordOf (item : Item) (summary : String) (embedding : List Number) : FunctionRecord :=
  { id := item.functionId
    name := item.name
    path := item.path
    summary
    embedding := some embedding
    code := some item.code
    startLine := item.startLine
    endLine := item.endLine }

/-- Summarises, embeds and stores one function. -/
def enrich (limit : Int) (item : Item) : Program Unit := do
  let summary ← orEnrichmentFault (summarize limit item.code) "summary" item
  if summary.isEmpty then
    .fail (.enrichment s!"empty summary for {item.name} ({item.path})" none)
  else
    let embedding ← orEnrichmentFault (request (.embed summary)) "embedding" item
    orEnrichmentFault (request (.storeRecord (recordOf item summary embedding))) "storing record" item

/-- Processes the oldest waiting function; answers whether it was enriched, or nothing if none was
waiting. -/
def processNext (limit : Int) : Program (Option Bool) := do
  match ← request .takeItem with
  | none => pure none
  | some item =>
    match ← (enrich limit item).attempt with
    | .ok () =>
      request (.settle item.key true)
      pure (some true)
    | .error (.enrichment m c) =>
      report queueName (Fault.enrichment m c).text
      request (.settle item.key false)
      pure (some false)
    | .error e => .fail e

/-- Processes up to `n` functions; answers with the number of those enriched. -/
def processUpTo (limit : Int) : Nat → Program Nat
  | 0 => pure 0
  | n + 1 => do
    match ← processNext limit with
    | none => pure 0
    | some enriched =>
      let count ← processUpTo limit n
      pure (if enriched then count + 1 else count)

/-- Processes everything that is waiting. -/
def drain (limit : Int) : Program Nat := do
  let stats ← request .queueStats
  processUpTo limit stats.pending

end CodeAtlas.Enrichment
