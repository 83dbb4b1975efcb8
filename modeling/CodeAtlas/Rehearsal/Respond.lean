import CodeAtlas.Rehearsal.State
import CodeAtlas.Text.Cut

/-!
# Answering requests

How a rehearsal answers each request of a program. An operation that is to fail fails before it has
changed anything.
-/

namespace CodeAtlas

/-! ## Failing on purpose -/

/-- The operation that a request is for, if it can be made to fail. -/
def Request.operation? : Request → Option Operation
  | mergeNode .. => some .mergeNode
  | mergeRelationship .. => some .mergeRelationship
  | findRelationships .. => some .findRelationships
  | deleteRelationship .. => some .deleteRelationship
  | expandCalls _ => some .expandCalls
  | graphStats => some .graphStats
  | flushGraph => some .flushGraph
  | findRecord _ => some .findRecord
  | hasRecord _ => some .hasRecord
  | storeRecord _ => some .storeRecord
  | nearest .. => some .nearest
  | recordStats => some .recordStats
  | _ => none

/-- The arguments of a request to the graph. -/
def Request.arguments : Request → List Datum
  | mergeNode label key => [.text label, .map key]
  | mergeRelationship type fromLabel fromKey toLabel toKey attrs
  | deleteRelationship type fromLabel fromKey toLabel toKey attrs =>
    [.text type, .text fromLabel, .map fromKey, .text toLabel, .map toKey]
      ++ (attrs.map Datum.map).toList
  | findRelationships type fromLabel fromKey attrs =>
    [.text type, .text fromLabel, .map fromKey] ++ (attrs.map Datum.map).toList
  | expandCalls id => [.text id]
  | _ => []

/-- Does a text occur in the written arguments? -/
def Request.mentions (r : Request) (text : String) : Bool :=
  let written := Json.write { Json.Style.line with ascii := false } (.list r.arguments)
  (Reply.cut? text.toList written.toList).isSome

/-- Does the refusal concern the request? -/
def Refusal.concerns (f : Refusal) (r : Request) : Bool :=
  r.operation? == some f.operation && f.within.all r.mentions

namespace Rehearsal

/-- From now on an operation fails. -/
def refuse (f : Refusal) (r : Rehearsal) : Rehearsal :=
  { r with refusals := f :: r.refusals.filter fun g ↦ g.operation != f.operation }

/-- From now on an operation works again. -/
def permit (operation : Operation) (r : Rehearsal) : Rehearsal :=
  { r with refusals := r.refusals.filter fun g ↦ g.operation != operation }

/-! ## Scripts -/

/-- The next entry of a script, or a substitute when it has come to its end. -/
def nextOf {α : Type} (script : List (Except Fault α)) (substitute : Except Fault α) :
    Except Fault α × List (Except Fault α) :=
  match script with
  | [] => (substitute, [])
  | entry :: rest => (entry, rest)

def complete (prompt : String) (r : Rehearsal) : Except Fault String × Rehearsal :=
  let n := r.replyCount + 1
  let (reply, replies) := nextOf r.replies (.ok s!"reply {n}")
  (reply, { r with replies, replyCount := n, prompts := r.prompts ++ [prompt] })

/-- The vector of a text that no script speaks of. -/
def plainVector (text : String) : List Number :=
  [.real (Float.ofNat (text.length % 7)), .real 1.0, .real 0.0, .real 0.5]

def embed (text : String) (r : Rehearsal) : Except Fault (List Number) × Rehearsal :=
  let (vector, vectors) := nextOf r.vectors (.ok (plainVector text))
  (vector, { r with vectors, embedded := r.embedded ++ [text] })

/-- The graph executes no queries of its own. -/
def noQueries : Fault := .graphQuery "the JSON graph store does not execute Cypher queries" none

def runQuery (query : String) (r : Rehearsal) : Except Fault (List Record) × Rehearsal :=
  let (answer, answers) := nextOf r.answers (.error noQueries)
  (answer, { r with answers, executed := r.executed ++ [query] })

/-! ## Records -/

/-- Replaces the record with the same id, or adds the record. -/
def putRecord (record : FunctionRecord) (records : List FunctionRecord) : List FunctionRecord :=
  if records.any fun q ↦ q.id == record.id then
    records.map fun q ↦ if q.id == record.id then record else q
  else records ++ [record]

/-- The similarity of the record at a place. -/
def scoreAt (scores : List Number) (place : Nat) : Number :=
  scores[place]?.getD (.real (1.0 - 0.125 * Float.ofNat place))

def nearest (limit : Int) (r : Rehearsal) : List Hit :=
  let found := Text.beginning limit r.records
  (found.zip (List.range found.length)).map fun (record, place) ↦ ⟨record, scoreAt r.scores place⟩

def recordStats (r : Rehearsal) : Props :=
  [("collection_name", .text "functions"), ("num_entities", .int r.records.length)]

/-! ## Requests -/

/-- Goes on with a changed store. -/
def withStore {α : Type} (result : Except Fault (Store × α)) (r : Rehearsal) :
    Except Fault α × Rehearsal :=
  match result with
  | .ok (store, a) => (.ok a, { r with store })
  | .error e => (.error e, r)

theorem withStore_eq {α : Type} (result : Except Fault (Store × α)) (r : Rehearsal) :
    (r.withStore result).2 = { r with store := (r.withStore result).2.store } := by
  cases result <;> rfl

/-- Answers a request that is not made to fail. -/
def serve (request : Request) (r : Rehearsal) : Except Fault request.Reply × Rehearsal :=
  match request with
  | .mergeNode label key => r.withStore (r.store.mergeNode Text.Digest.ofText label key)
  | .mergeRelationship type fromLabel fromKey toLabel toKey attrs =>
    let (result, store) := r.store.mergeRelationship Text.Digest.ofText type fromLabel fromKey toLabel
      toKey (attrs.getD [])
    (result, { r with store })
  | .findRelationships type fromLabel fromKey attrs =>
    (r.store.findRelationships Text.Digest.ofText type fromLabel fromKey (attrs.getD []), r)
  | .deleteRelationship type fromLabel fromKey toLabel toKey attrs =>
    r.withStore (r.store.deleteRelationship Text.Digest.ofText type fromLabel fromKey toLabel toKey
      (attrs.getD []))
  | .expandCalls id => (r.store.expandCalls id, r)
  | .graphStats => (r.store.stats, r)
  | .flushGraph => (.ok (), if r.store.dirty then r.saveStore else r)
  | .runQuery query => r.runQuery query
  | .findRecord id => (.ok (r.records.find? fun q ↦ q.id == id), r)
  | .hasRecord id => (.ok (r.records.any fun q ↦ q.id == id), r)
  | .storeRecord record => (.ok (), { r with records := putRecord record r.records })
  | .nearest embedding limit =>
    (.ok (r.nearest limit), { r with searches := r.searches ++ [(embedding, limit)] })
  | .recordStats => (.ok r.recordStats, r)
  | .complete prompt => r.complete prompt
  | .embed text => r.embed text
  | .offer item force =>
    let (queue, verdict) := r.queue.offer item force
    (.ok verdict, { r with queue })
  | .takeItem =>
    match r.queue.take with
    | some (item, queue) => (.ok (some item), { r with queue })
    | none => (.ok none, r)
  | .settle key success => (.ok (), { r with queue := r.queue.settle key success })
  | .queueStats => (.ok (r.queue.stats r.scheduler.isRunning), r)
  | .note n => (.ok (), { r with notices := r.notices ++ [n] })

/-- Answers a request. -/
def respond (request : Request) (r : Rehearsal) : Except Fault request.Reply × Rehearsal :=
  match r.refusals.find? fun f ↦ f.concerns request with
  | some f => (.error f.fault, r)
  | none => r.serve request

/-- Runs a program. -/
def run {α : Type} (p : Program α) (r : Rehearsal) : Except Fault α × Rehearsal :=
  p.run respond r

end Rehearsal

end CodeAtlas
