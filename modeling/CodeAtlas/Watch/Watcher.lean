import CodeAtlas.Watch.Rules

/-!
# The watcher

Every change of a file that is watched starts the timer of its path anew. When a timer runs out and
the file is still there, its change is dealt with; that takes a while, in which further changes may
come. To stop, the watcher first drops all timers, then waits until no more notifications can come
from the file system, and last for the changes that are being dealt with at that moment.

Time may be any kind of number. Each function here is one step, and takes no time itself.
-/

namespace CodeAtlas

/-- The timer of a path, and when it runs out. -/
structure Timer (T : Type) where
  path : String
  due : T
  deriving Repr

/-- A change that is being dealt with. -/
structure Change where
  number : Nat
  path : String
  deriving DecidableEq, Repr

inductive WatchPhase where
  | watching
  /-- The timers have been dropped. -/
  | stopping
  /-- These changes are waited for. -/
  | waiting (numbers : List Nat)
  | stopped
  deriving DecidableEq, Repr

structure Watcher (T : Type) where
  /-- The timer started last comes last. -/
  timers : List (Timer T)
  running : List Change
  /-- How many changes have been started. -/
  started : Nat
  phase : WatchPhase

namespace Watcher

variable {T : Type}

def new : Watcher T := ⟨[], [], 0, .watching⟩

/-- Drops the timer of a path. -/
def dropTimer (path : String) (timers : List (Timer T)) : List (Timer T) :=
  timers.filter fun t ↦ !(t.path == path)

/-- A path has changed at a time. -/
def handle [Add T] (rules : WatchRules) (debounce now : T) (path : String) (w : Watcher T) :
    Watcher T :=
  if rules.accepts path then
    { w with timers := dropTimer path w.timers ++ [⟨path, now + debounce⟩] }
  else w

/-- The timer of a path runs out. The change is started if there is such a file. -/
def fire (path : String) (isFile : Bool) (w : Watcher T) : Watcher T × Option Change :=
  let timers := dropTimer path w.timers
  if isFile then
    let c : Change := ⟨w.started, path⟩
    ({ w with timers, running := w.running ++ [c], started := w.started + 1 }, some c)
  else ({ w with timers }, none)

/-- A change has been dealt with, well or badly. -/
def finish (number : Nat) (w : Watcher T) : Watcher T :=
  { w with running := w.running.filter fun c ↦ !(c.number == number) }

/-- The timer that runs out next; of several, the one started first. -/
def next? [LT T] [DecidableLT T] (w : Watcher T) : Option (Timer T) :=
  w.timers.foldl (fun best t ↦
    match best with
    | none => some t
    | some b => if t.due < b.due then some t else some b) none

/-! ## Stopping -/

/-- The first step of stopping. -/
def stop (w : Watcher T) : Watcher T := { w with timers := [], phase := .stopping }

/-- No more notifications come: the changes that are being dealt with are waited for. -/
def awaitChanges (w : Watcher T) : Watcher T :=
  { w with phase := .waiting (w.running.map (·.number)) }

/-- Is none of the awaited changes running any more? -/
def isSettled (w : Watcher T) : Bool :=
  match w.phase with
  | .waiting numbers => !(w.running.any fun c ↦ numbers.contains c.number)
  | _ => false

/-- The last step of stopping, when all that was waited for is done. -/
def settle (w : Watcher T) : Watcher T :=
  if w.isSettled then { w with phase := .stopped } else w

end Watcher

end CodeAtlas
