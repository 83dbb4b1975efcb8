import CodeAtlas.Proofs.Watch.Debounce

/-!
# Stopping

A watcher stops in three steps: it drops all timers, it waits until the file system is no longer
observed, and it waits for the changes that are being dealt with at that moment. In between, whatever
else may happen may still happen (`Step`).

Once the timers have been dropped, only a change that is told of starts another one. So if no change
is told of while the watcher stops, then no timer is pending when it has stopped, and nothing is
started after that until it is told of a change again (`stop_final`). The steps that follow the first
one do not look at the timers any more: the timer of a change that is told of in the meantime outlives
the stop (`stop_leaves_timer`).
-/

namespace CodeAtlas.Watcher

variable {T : Type}

/-- What may happen to a watcher, at whatever time. -/
inductive Action (T : Type)
  | tell (time : T) (path : String)
  | runOut (path : String) (isFile : Bool)
  | finish (change : Change)
  /-- The timers are dropped. -/
  | stop
  /-- The file system is no longer observed. -/
  | awaitChanges
  /-- The changes that were waited for have been dealt with. -/
  | settle

namespace Action

/-- Is a change told of that is watched? -/
def changes (rules : WatchRules) : Action T → Bool
  | tell _ path => rules.accepts path
  | _ => false

/-- Is a change started? -/
def starts : Action T → Bool
  | runOut _ isFile => isFile
  | _ => false

end Action

section Steps

variable [Add T] (rules : WatchRules) (debounce : T)

inductive Step : Watcher T → Action T → Watcher T → Prop
  | tell (w : Watcher T) (time : T) (path : String) :
      Step w (.tell time path) (w.handle rules debounce time path)
  | runOut {w : Watcher T} {timer : Timer T} (htimer : timer ∈ w.timers) (isFile : Bool) :
      Step w (.runOut timer.path isFile) (w.fire timer.path isFile).1
  | finish {w : Watcher T} {change : Change} (hchange : change ∈ w.running) :
      Step w (.finish change) (w.finish change.number)
  | stop {w : Watcher T} (hphase : w.phase = .watching) : Step w .stop w.stop
  | awaitChanges {w : Watcher T} (hphase : w.phase = .stopping) :
      Step w .awaitChanges w.awaitChanges
  | settle {w : Watcher T} (hsettled : w.isSettled = true) : Step w .settle w.settle

inductive Steps : Watcher T → List (Action T) → Watcher T → Prop
  | nil (w : Watcher T) : Steps w [] w
  | cons {w w' w'' a actions} (h : Step rules debounce w a w') (hs : Steps w' actions w'') :
      Steps w (a :: actions) w''

variable {rules debounce} {w w' : Watcher T} {a : Action T} {actions : List (Action T)}
  {path : String}

/-- Without timers there is nothing to start, and only a change that is told of starts a timer. -/
theorem Step.timers_eq_nil (h : Step rules debounce w a w') (ha : a.changes rules = false)
    (hw : w.timers = []) : w'.timers = [] ∧ a.starts = false := by
  cases h with
  | tell time path =>
    have hrejected : ¬ rules.accepts path = true := Bool.eq_false_iff.mp ha
    rw [handle, if_neg hrejected]
    exact ⟨hw, rfl⟩
  | runOut htimer => exact absurd htimer (hw ▸ List.not_mem_nil)
  | stop => exact ⟨rfl, rfl⟩
  | finish | awaitChanges => exact ⟨hw, rfl⟩
  | settle =>
    rw [Watcher.settle]
    split <;> exact ⟨hw, rfl⟩

theorem Steps.timers_eq_nil (h : Steps rules debounce w actions w')
    (hactions : ∀ a ∈ actions, a.changes rules = false) (hw : w.timers = []) :
    w'.timers = [] ∧ ∀ a ∈ actions, a.starts = false := by
  induction h with
  | nil => exact ⟨hw, fun a ha ↦ absurd ha List.not_mem_nil⟩
  | cons hstep _ ih =>
    rw [List.forall_mem_cons] at hactions ⊢
    obtain ⟨htimers, hstarts⟩ := hstep.timers_eq_nil hactions.1 hw
    obtain ⟨hrest, hnone⟩ := ih hactions.2 htimers
    exact ⟨hrest, hstarts, hnone⟩

/-- **Stopping is final** from its first step on, until the watcher is told of a change. -/
theorem stop_final (h : Steps rules debounce w (.stop :: actions) w')
    (hactions : ∀ a ∈ actions, a.changes rules = false) :
    w'.timers = [] ∧ ∀ a ∈ actions, a.starts = false := by
  cases h with
  | cons hstop hrest =>
    cases hstop with
    | stop => exact hrest.timers_eq_nil hactions rfl

/-- **Stopping is not final** for a change that is told of while the watcher stops: its timer is
pending when the watcher has stopped. -/
theorem stop_leaves_timer (hphase : w.phase = .watching) (hrunning : w.running = [])
    (hpath : rules.accepts path = true) (time : T) : ∃ w',
      Steps rules debounce w [.stop, .tell time path, .awaitChanges, .settle] w' ∧
      w'.phase = .stopped ∧ w'.timers = [⟨path, time + debounce⟩] := by
  have htold : w.stop.handle rules debounce time path
      = { w.stop with timers := [⟨path, time + debounce⟩] } := if_pos hpath
  have hsettled : (w.stop.handle rules debounce time path).awaitChanges.isSettled = true := by
    rw [htold]
    simp [isSettled, awaitChanges, stop, hrunning]
  refine ⟨_, .cons (.stop hphase) (.cons (.tell _ time path) (.cons (.awaitChanges ?_)
    (.cons (.settle hsettled) (.nil _)))), ?_, ?_⟩
  · rw [htold]
    rfl
  · rw [settle, if_pos hsettled]
  · rw [settle, if_pos hsettled, htold]
    rfl

end Steps

end CodeAtlas.Watcher
