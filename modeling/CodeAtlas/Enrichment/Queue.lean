import CodeAtlas.Datum
import CodeAtlas.Syntax.Outline

/-!
# The queue of functions to be summarised

A function waits under its name and path, so it waits at most once: offering it again replaces what
is to be summarised and keeps its place. The queue has a capacity. Taking an item out and recording
how it went are two steps, because other offers may come in between.
-/

namespace CodeAtlas

open Syntax (FunctionKey)

/-- A function that waits for its summary. -/
structure Item where
  functionId : String
  name : String
  path : String
  code : String
  startLine : Int
  endLine : Int
  deriving DecidableEq, Repr, Inhabited

def Item.key (i : Item) : FunctionKey := (i.name, i.path)

structure Queue where
  capacity : Int
  /-- Waiting items, the oldest first. -/
  pending : List Item
  /-- Functions whose record has been stored. -/
  processed : List FunctionKey
  /-- Functions whose last attempt failed. -/
  failed : List FunctionKey
  deriving Inhabited

/-- What became of an offer. -/
inductive Verdict where
  | pending | alreadyProcessed | full
  deriving DecidableEq, Repr

/-- The numbers that describe a queue. -/
structure QueueStats where
  pending : Nat
  processed : Nat
  failed : Nat
  capacity : Int
  running : Bool

namespace QueueStats

def toDatum (s : QueueStats) : Datum :=
  .map [("pending", .int s.pending), ("processed", .int s.processed), ("failed", .int s.failed),
    ("maxsize", .int s.capacity), ("running", .bool s.running)]

instance : ToDatum QueueStats := ⟨toDatum⟩

end QueueStats

namespace Queue

def empty (capacity : Int) : Queue := ⟨capacity, [], [], []⟩

def isPending (q : Queue) (k : FunctionKey) : Bool := q.pending.any fun i ↦ i.key == k

/-- Replaces the waiting item of the same function. -/
def refresh (item : Item) (pending : List Item) : List Item :=
  pending.map fun i ↦ if i.key == item.key then item else i

/-- Offers a function. One that was processed already is queued again only if this is forced. -/
def offer (q : Queue) (item : Item) (force : Bool) : Queue × Verdict :=
  if q.isPending item.key then ({ q with pending := refresh item q.pending }, .pending)
  else if q.processed.contains item.key && !force then (q, .alreadyProcessed)
  else if q.capacity ≤ q.pending.length then (q, .full)
  else
    ({ q with
        pending := q.pending ++ [item]
        processed := q.processed.filter fun k ↦ !(k == item.key)
        failed := q.failed.filter fun k ↦ !(k == item.key) }, .pending)

/-- Takes the oldest item out. -/
def take (q : Queue) : Option (Item × Queue) :=
  match q.pending with
  | [] => none
  | i :: rest => some (i, { q with pending := rest })

/-- Adds a key to a set of keys. -/
def record (k : FunctionKey) (keys : List FunctionKey) : List FunctionKey :=
  if keys.contains k then keys else keys ++ [k]

/-- Records how a function that was taken out went. -/
def settle (q : Queue) (k : FunctionKey) (success : Bool) : Queue :=
  if success then { q with processed := record k q.processed }
  else { q with failed := record k q.failed }

def stats (q : Queue) (running : Bool) : QueueStats :=
  ⟨q.pending.length, q.processed.length, q.failed.length, q.capacity, running⟩

end Queue

end CodeAtlas
