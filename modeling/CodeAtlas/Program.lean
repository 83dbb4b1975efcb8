import CodeAtlas.Enrichment.Queue
import CodeAtlas.Graph.Basic
import CodeAtlas.Records.Record

/-!
# Programs over the surroundings

Indexing, enrichment and queries all work by asking their surroundings: the graph store, the record
store, a language model, an embedding service, the queue. A *program* is such a course of action
before anyone answers: a result, a failure, or a request together with what to do with the reply.
Every request may be refused with a failure, which the program can catch.

Running a program means giving it something that answers. What a program does under any pattern of
failures, or when its requests are interleaved with those of others, can then be stated without
speaking of a particular store.
-/

namespace CodeAtlas

/-- A line for the log. Only lines of concern are kept. -/
structure Notice where
  isError : Bool
  /-- The part of the library that speaks. -/
  source : String
  text : String
  deriving DecidableEq, Repr

inductive Request where
  -- the graph
  | mergeNode (label : String) (key : Props)
  | mergeRelationship (type fromLabel : String) (fromKey : Props) (toLabel : String) (toKey : Props)
      (attrs : Option Props)
  | findRelationships (type fromLabel : String) (fromKey : Props) (attrs : Option Props)
  | deleteRelationship (type fromLabel : String) (fromKey : Props) (toLabel : String)
      (toKey : Props) (attrs : Option Props)
  | expandCalls (functionId : String)
  | graphStats
  | flushGraph
  | runQuery (query : String)
  -- function records
  | findRecord (id : String)
  | hasRecord (id : String)
  | storeRecord (record : FunctionRecord)
  | nearest (embedding : List Number) (limit : Int)
  | recordStats
  -- services
  | complete (prompt : String)
  | embed (text : String)
  -- the queue
  | offer (item : Item) (force : Bool)
  | takeItem
  | settle (key : Syntax.FunctionKey) (success : Bool)
  | queueStats
  | note (notice : Notice)

/-- What a request is answered with. -/
def Request.Reply : Request → Type
  | mergeNode .. => String
  | mergeRelationship .. => String
  | findRelationships .. => List Edge
  | deleteRelationship .. => Nat
  | expandCalls .. => List CallRecord
  | graphStats => GraphStats
  | flushGraph => Unit
  | runQuery .. => List Record
  | findRecord .. => Option FunctionRecord
  | hasRecord .. => Bool
  | storeRecord .. => Unit
  | nearest .. => List Hit
  | recordStats => Props
  | complete .. => String
  | embed .. => List Number
  | offer .. => Verdict
  | takeItem => Option Item
  | settle .. => Unit
  | queueStats => QueueStats
  | note .. => Unit

inductive Program (α : Type) : Type where
  | done (value : α)
  | fail (fault : Fault)
  | ask (request : Request) (resume : Except Fault request.Reply → Program α)

namespace Program

variable {α β σ : Type}

protected def bind : Program α → (α → Program β) → Program β
  | done a, f => f a
  | fail e, _ => fail e
  | ask r k, f => ask r fun x ↦ (k x).bind f

instance : Monad Program where
  pure := done
  bind := Program.bind

/-- Makes a request and goes on with the reply; a refusal ends the program. -/
def request (r : Request) : Program r.Reply := ask r fun
  | .ok x => done x
  | .error e => fail e

/-- The outcome of a program as a value, so that a failure can be dealt with. -/
def attempt : Program α → Program (Except Fault α)
  | done a => done (.ok a)
  | fail e => done (.error e)
  | ask r k => ask r fun x ↦ (k x).attempt

def ofExcept : Except Fault α → Program α
  | .ok a => done a
  | .error e => fail e

/-- Writes a line to the log. -/
def note (isError : Bool) (source text : String) : Program Unit :=
  request (.note ⟨isError, source, text⟩)

def warn (source text : String) : Program Unit := note false source text

def report (source text : String) : Program Unit := note true source text

/-- Runs a program against something that answers. -/
def run (respond : (r : Request) → σ → Except Fault r.Reply × σ) :
    Program α → σ → Except Fault α × σ
  | done a, s => (.ok a, s)
  | fail e, s => (.error e, s)
  | ask r k, s =>
    let (x, s) := respond r s
    (k x).run respond s

end Program

end CodeAtlas
