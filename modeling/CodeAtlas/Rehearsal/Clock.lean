import CodeAtlas.Rehearsal.Respond

/-!
# What happens in the background

Two kinds of things happen by themselves: the timers of the watcher run out, and the task that
processes the queue wakes up, takes one function and sleeps again. Both happen while the clock moves,
in the order of their times.
-/

namespace CodeAtlas.Rehearsal

/-! ## The queue -/

/-- Starts the task that processes the queue, unless it is running. -/
def startScheduler (r : Rehearsal) : Rehearsal :=
  if r.scheduler.isRunning then r else { r with scheduler := .fresh }

def stopScheduler (r : Rehearsal) : Rehearsal := { r with scheduler := .off }

/-- The task processes one function and goes to sleep. -/
def tick (r : Rehearsal) : Rehearsal :=
  let (_, r) := r.run (Enrichment.processNext r.settings.maxCodeLength)
  { r with scheduler := .asleep (r.clock + r.settings.enrichmentTickSeconds.toFloat) }

/-- A task that has been started makes its first move. -/
def wake (r : Rehearsal) : Rehearsal :=
  match r.scheduler with
  | .fresh => r.tick
  | _ => r

/-! ## The watcher -/

/-- Deals with a change. -/
def handleChange (handler : ChangeHandler) (path : String) (r : Rehearsal) : Rehearsal :=
  match handler with
  | .reindex => (r.run (Watch.guarded path (Watch.reindex r.indexRules r.files path))).2
  | .record fault =>
    let r := { r with changes := r.changes ++ [path] }
    match fault with
    | none => r
    | some e => (r.run (Watch.guarded path (.fail e))).2

/-- The timer of a path runs out. -/
def fireTimer (path : String) (r : Rehearsal) : Rehearsal :=
  match r.watching with
  | none => r
  | some w =>
    match w.watcher.fire path (r.files.isFile path) with
    | (watcher, none) => { r with watching := some { w with watcher } }
    | (watcher, some change) =>
      let r := { r with watching := some { w with watcher } }.handleChange w.handler path
      { r with watching := r.watching.map fun w ↦
          { w with watcher := w.watcher.finish change.number } }

/-! ## The clock -/

/-- The next thing to happen. -/
inductive Due where
  | timer (path : String)
  | queue

/-- What happens next, and when. -/
def nextDue? (r : Rehearsal) : Option (Float × Due) :=
  let timer := (r.watching.bind fun w ↦ w.watcher.next?).map fun t ↦ (t.due, Due.timer t.path)
  match timer, r.scheduler with
  | some (t, d), .asleep q => if q < t then some (q, .queue) else some (t, d)
  | none, .asleep q => some (q, .queue)
  | some due, _ => some due
  | none, _ => none

def happen (due : Due) (r : Rehearsal) : Rehearsal :=
  match due with
  | .timer path => r.fireTimer path
  | .queue => r.tick

/-- Lets everything happen up to a time. A task that went to sleep in the meantime and is to wake at
the very end sleeps on: `slept` says whether it did. -/
def happenUntil (limit : Float) : Nat → Bool → Rehearsal → Rehearsal
  | 0, _, r => r
  | fuel + 1, slept, r =>
    match r.nextDue? with
    | none => r
    | some (time, due) =>
      let late := match due with
        | .queue => slept
        | .timer _ => false
      if time < limit || (time == limit && !late) then
        let r := { r with clock := if r.clock < time then time else r.clock }
        let slept := match due with
          | .queue => true
          | .timer _ => slept
        happenUntil limit fuel slept (r.happen due)
      else r

/-- How many things can happen in a time, with one more for each timer. -/
def happenings (seconds : Float) (r : Rehearsal) : Nat :=
  let timers := match r.watching with
    | some w => w.watcher.timers.length
    | none => 0
  (seconds / r.settings.enrichmentTickSeconds.toFloat).toUInt32.toNat + timers + 2

/-- Moves the clock. -/
def advance (seconds : Float) (r : Rehearsal) : Rehearsal :=
  let isFresh := match r.scheduler with
    | .fresh => true
    | _ => false
  let r := r.wake
  if seconds > 0.0 then
    let limit := r.clock + seconds
    { happenUntil limit (r.happenings seconds) isFresh r with clock := limit }
  else r

/-- The least that the clock moves with every notification, so that no two timers run out together. -/
def instant : Float := 0.000001

/-- A path has changed. -/
def notify (path : String) (r : Rehearsal) : Rehearsal :=
  match r.watching with
  | none => r
  | some w =>
    let path := r.files.realPath path
    { r with
      watching := some { w with watcher := w.watcher.handle w.rules w.debounce r.clock path } }

/-- Lets what is due now happen. -/
def settleNow (r : Rehearsal) : Rehearsal :=
  let r := r.wake
  happenUntil r.clock (r.happenings 0.0) true r

def passInstant (r : Rehearsal) : Rehearsal := { r with clock := r.clock + instant }

/-! ## Watching -/

/-- Watches a directory. -/
def watch (rules : WatchRules) (debounce : Float) (handler : ChangeHandler) (r : Rehearsal) :
    Rehearsal :=
  { r with watching := some ⟨rules, debounce, handler, .new⟩ }

/-- Watches a directory and registers what changes. -/
def watchSources (root : String) (r : Rehearsal) : Except Fault Rehearsal := do
  let rules ← WatchRules.make r.files root r.settings.sourceExtensionList
    r.settings.watchIgnorePatternList
  pure (r.watch rules r.settings.debounceSeconds.toFloat .reindex)

/-- Stops watching. No change is being dealt with between two steps of a rehearsal, so nothing is
left to wait for. -/
def stopWatching (r : Rehearsal) : Rehearsal :=
  { r with watching := r.watching.map fun w ↦
      { w with watcher := w.watcher.stop.awaitChanges.settle } }

end CodeAtlas.Rehearsal
