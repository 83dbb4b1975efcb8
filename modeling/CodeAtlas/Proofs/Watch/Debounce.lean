import CodeAtlas.Proofs.Files.RealPath
import CodeAtlas.Watch.Watcher
import Mathlib.Algebra.Order.Group.Nat
import Mathlib.Data.List.Induction
import Mathlib.Data.List.Nodup

/-!
# Debouncing

A watcher takes steps in time (`Course`): it is told of paths, timers run out, changes are dealt with,
and in between time passes, though never past a timer that is still to run out. What happens at one
time may happen in any order, and dealing with a change may take as long as it likes and end well or
badly.

The changes of a path ask for a number of *deadlines*: one for each change that is followed by a quiet
while. For each path on its own,

```text
deadlines  =  those that have run out  ++  the one that is pending,
```

and that is kept by every step: a further change of the path takes the place of the pending deadline,
and of no other, since the others are over. So a change of a path is started when the path has been
quiet for a while, and at no other time.

The one thing that the order of steps decides is what becomes of a change that is told of at the very
time at which the timer of its path is to run out. Courses in which that happens are left aside, path
by path (`Unambiguous`).
-/

namespace CodeAtlas.Watcher

variable {T : Type}

/-! ## The timers of a path -/

/-- The times at which the timers of a path run out. -/
def dues (path : String) (w : Watcher T) : List T :=
  (w.timers.filter fun t ↦ t.path == path).map (·.due)

section Timers

variable {path other : String} {timers : List (Timer T)} {timer : Timer T} {w : Watcher T}

theorem mem_dropTimer : timer ∈ dropTimer path timers ↔ timer ∈ timers ∧ timer.path ≠ path := by
  rw [dropTimer, List.mem_filter, Bool.not_eq_true', beq_eq_false_iff_ne]

theorem filter_dropTimer : ((dropTimer path timers).filter fun t ↦ t.path == path) = [] := by
  rw [List.filter_eq_nil_iff]
  intro t ht
  rw [beq_iff_eq]
  exact (mem_dropTimer.mp ht).2

theorem filter_dropTimer_of_ne (h : other ≠ path) :
    ((dropTimer other timers).filter fun t ↦ t.path == path)
      = timers.filter fun t ↦ t.path == path := by
  rw [dropTimer, List.filter_filter]
  apply List.filter_congr
  intro t _
  by_cases ht : t.path = path
  · simp [ht, h.symm]
  · simp [ht]

theorem nodup_dropTimer (h : (timers.map (·.path)).Nodup) :
    ((dropTimer path timers).map (·.path)).Nodup :=
  h.sublist (List.filter_sublist.map _)

/-- Each path has at most one timer. -/
theorem dues_of_mem (h : (w.timers.map (·.path)).Nodup) (ht : timer ∈ w.timers) :
    w.dues timer.path = [timer.due] := by
  have hnodup : (w.timers.filter fun t ↦ t.path == timer.path).Nodup := h.of_map.filter _
  have hperm : (w.timers.filter fun t ↦ t.path == timer.path).Perm [timer] := by
    apply (List.perm_ext_iff_of_nodup hnodup (List.nodup_singleton _)).mpr
    intro t
    rw [List.mem_filter, beq_iff_eq, List.mem_singleton]
    constructor
    · rintro ⟨hmem, hpath⟩
      exact List.inj_on_of_nodup_map h hmem ht hpath
    · rintro rfl
      exact ⟨ht, rfl⟩
  rw [dues, List.perm_singleton.mp hperm, List.map_singleton]

theorem mem_timers_of_mem_dues {due : T} (h : due ∈ w.dues path) :
    ∃ timer ∈ w.timers, timer.path = path ∧ timer.due = due := by
  obtain ⟨timer, htimer, rfl⟩ := List.mem_map.mp h
  rw [List.mem_filter, beq_iff_eq] at htimer
  exact ⟨timer, htimer.1, htimer.2, rfl⟩

/-- A change that is watched starts the timer of its path anew. -/
theorem dues_handle [Add T] {rules : WatchRules} {debounce now : T}
    (h : rules.accepts path = true) :
    (w.handle rules debounce now path).dues path = [now + debounce] := by
  rw [handle, if_pos h, dues, List.filter_append, filter_dropTimer]
  simp

theorem dues_handle_of_ne [Add T] {rules : WatchRules} {debounce now : T} (h : other ≠ path) :
    (w.handle rules debounce now other).dues path = w.dues path := by
  rw [handle]
  split
  · rw [dues, List.filter_append, filter_dropTimer_of_ne h]
    simp [dues, h]
  · rfl

theorem timers_fire {isFile : Bool} : (w.fire path isFile).1.timers = dropTimer path w.timers := by
  rw [fire]
  split <;> rfl

theorem snd_fire {isFile : Bool} :
    (w.fire path isFile).2 = if isFile then some ⟨w.started, path⟩ else none := by
  rw [fire]
  split <;> rfl

theorem dues_fire {isFile : Bool} : (w.fire path isFile).1.dues path = [] := by
  rw [dues, timers_fire, filter_dropTimer, List.map_nil]

theorem dues_fire_of_ne {isFile : Bool} (h : other ≠ path) :
    (w.fire other isFile).1.dues path = w.dues path := by
  rw [dues, timers_fire, filter_dropTimer_of_ne h, dues]

end Timers

/-! ## The next timer -/

section Next

variable [LinearOrder T] {w : Watcher T}

theorem exists_foldl_next? (best : Timer T) (timers : List (Timer T)) :
    ∃ timer, timers.foldl (fun best t ↦
      match best with
      | none => some t
      | some b => if t.due < b.due then some t else some b) (some best) = some timer ∧
      timer ∈ best :: timers ∧ ∀ t ∈ best :: timers, timer.due ≤ t.due := by
  induction timers generalizing best with
  | nil =>
    refine ⟨best, rfl, List.mem_singleton_self _, fun t ht ↦ ?_⟩
    rw [List.mem_singleton.mp ht]
  | cons t timers ih =>
    rw [List.foldl_cons]
    dsimp only
    simp only [List.mem_cons, forall_eq_or_imp] at ih ⊢
    split
    case isTrue hlt =>
      obtain ⟨timer, hnext, hmem, hfirst, hrest⟩ := ih t
      exact ⟨timer, hnext, Or.inr hmem, hfirst.trans hlt.le, hfirst, hrest⟩
    case isFalse hle =>
      obtain ⟨timer, hnext, hmem, hfirst, hrest⟩ := ih best
      exact ⟨timer, hnext, hmem.imp_right Or.inr, hfirst, hfirst.trans (not_lt.mp hle), hrest⟩

/-- If there are timers, then there is one that runs out next, and none runs out before. -/
theorem exists_next? (h : w.timers ≠ []) :
    ∃ timer, w.next? = some timer ∧ timer ∈ w.timers ∧ ∀ t ∈ w.timers, timer.due ≤ t.due := by
  obtain ⟨best, timers, htimers⟩ := List.exists_cons_of_ne_nil h
  rw [next?, htimers, List.foldl_cons]
  exact exists_foldl_next? best timers

end Next

/-! ## Courses -/

/-- What happens to a watcher, and when. -/
inductive Happening (T : Type)
  /-- It is told of a path, however that is spelled. -/
  | told (time : T) (path : String)
  /-- The timer of a path runs out; a change may be started. -/
  | ranOut (time : T) (path : String) (change : Option Change)
  /-- A change has been dealt with, well or badly. -/
  | finished (time : T) (change : Change) (result : Except Fault Unit)

/-- What may happen until a time to a watcher that is never stopped. -/
inductive Course [Add T] [LE T] (rules : WatchRules) (debounce : T) (files : T → FileTree) :
    List (Happening T) → T → Watcher T → Prop
  | start (now : T) : Course rules debounce files [] now .new
  /-- Time passes, but not past a timer. -/
  | wait {log now w} (h : Course rules debounce files log now w) {later : T} (hlater : now ≤ later)
      (hpending : ∀ timer ∈ w.timers, later ≤ timer.due) : Course rules debounce files log later w
  | tell {log now w} (h : Course rules debounce files log now w) (path : String) :
      Course rules debounce files (log ++ [.told now path]) now
        (w.handle rules debounce now ((files now).realPath path))
  /-- A timer runs out when it is due. -/
  | runOut {log now w} (h : Course rules debounce files log now w) {timer : Timer T}
      (htimer : timer ∈ w.timers) (hdue : timer.due = now) :
      Course rules debounce files
        (log ++ [.ranOut now timer.path (w.fire timer.path ((files now).isFile timer.path)).2]) now
        (w.fire timer.path ((files now).isFile timer.path)).1
  | finish {log now w} (h : Course rules debounce files log now w) {change : Change}
      (hrunning : change ∈ w.running) (result : Except Fault Unit) :
      Course rules debounce files (log ++ [.finished now change result]) now
        (w.finish change.number)

section Logs

variable (rules : WatchRules) (files : T → FileTree) (path : String)

/-- When the watcher is told of a change of a path that it watches. -/
def Happening.changedAt? : Happening T → Option T
  | told time raw => if (files time).realPath raw = path ∧ rules.accepts path then some time else none
  | _ => none

/-- When a timer of a path runs out. -/
def Happening.ranOutAt? : Happening T → Option T
  | ranOut time p _ => if p = path then some time else none
  | _ => none

/-- When a change of a path is started. -/
def Happening.startedAt? : Happening T → Option T
  | ranOut time _ (some change) => if change.path = path then some time else none
  | _ => none

def changedAt (log : List (Happening T)) : List T := log.filterMap (·.changedAt? rules files path)

def ranOutAt (log : List (Happening T)) : List T := log.filterMap (·.ranOutAt? path)

def startedAt (log : List (Happening T)) : List T := log.filterMap (·.startedAt? path)

variable {rules files path} {log : List (Happening T)} {x : Happening T}

theorem changedAt_concat : changedAt rules files path (log ++ [x])
    = changedAt rules files path log ++ (x.changedAt? rules files path).toList := by
  rw [changedAt, List.filterMap_append]
  cases hx : x.changedAt? rules files path <;> simp [changedAt, hx]

theorem ranOutAt_concat :
    ranOutAt path (log ++ [x]) = ranOutAt path log ++ (x.ranOutAt? path).toList := by
  rw [ranOutAt, List.filterMap_append]
  cases hx : x.ranOutAt? path <;> simp [ranOutAt, hx]

theorem startedAt_concat :
    startedAt path (log ++ [x]) = startedAt path log ++ (x.startedAt? path).toList := by
  rw [startedAt, List.filterMap_append]
  cases hx : x.startedAt? path <;> simp [startedAt, hx]

end Logs

/-! ## Deadlines -/

section Deadlines

variable [Add T] [LinearOrder T] {debounce : T} {events : List T}

/-- The ends of the quiet whiles: each event that is followed by no other for a while has a deadline
at the end of that while. -/
def deadlines (debounce : T) : List T → List T
  | [] => []
  | e :: later =>
    if later.any fun e' ↦ e' < e + debounce then deadlines debounce later
    else (e + debounce) :: deadlines debounce later

theorem deadlines_cons (e : T) (later : List T) : deadlines debounce (e :: later)
    = (if ∀ e' ∈ later, ¬ e' < e + debounce then [e + debounce] else []) ++
      deadlines debounce later := by
  rw [deadlines]
  by_cases h : ∀ e' ∈ later, ¬ e' < e + debounce
  · rw [if_pos h, if_neg (by simpa using h), List.singleton_append]
  · rw [if_neg h, if_pos (by simpa using h), List.nil_append]

theorem mem_deadlines {t : T} : t ∈ deadlines debounce events ↔
    ∃ before e after, events = before ++ e :: after ∧ e + debounce = t ∧
      ∀ e' ∈ after, ¬ e' < e + debounce := by
  induction events with
  | nil => simp [deadlines]
  | cons e later ih =>
    rw [deadlines_cons, List.mem_append, ih]
    constructor
    · rintro (hfirst | ⟨before, e', after, rfl, hlater⟩)
      · split at hfirst
        case isTrue hquiet =>
          exact ⟨[], e, later, rfl, (List.mem_singleton.mp hfirst).symm, hquiet⟩
        case isFalse => exact absurd hfirst List.not_mem_nil
      · exact ⟨e :: before, e', after, rfl, hlater⟩
    · rintro ⟨_ | ⟨e', before⟩, e'', after, hevents, ht, hquiet⟩
      · obtain ⟨rfl, rfl⟩ := List.cons.inj hevents
        rw [if_pos hquiet]
        exact Or.inl (List.mem_singleton.mpr ht.symm)
      · obtain ⟨-, rfl⟩ := List.cons.inj hevents
        exact Or.inr ⟨before, e'', after, rfl, ht, hquiet⟩

/-- A further event puts its own deadline in the place of those that are not over. -/
theorem deadlines_concat (now : T) : deadlines debounce (events ++ [now])
    = ((deadlines debounce events).filter fun t ↦ t ≤ now) ++ [now + debounce] := by
  induction events with
  | nil => rfl
  | cons e later ih =>
    rw [List.cons_append, deadlines_cons, deadlines_cons, ih, List.filter_append, List.append_assoc]
    congr 1
    simp only [List.forall_mem_append, List.forall_mem_singleton]
    by_cases hnow : now < e + debounce
    · rw [if_neg fun h ↦ h.2 hnow]
      split <;> simp [hnow]
    · rw [if_congr (and_iff_left hnow) rfl rfl]
      split <;> simp [not_lt.mp hnow]

end Deadlines

section Deadlines

variable [AddCommMonoid T] [LinearOrder T] [IsOrderedCancelAddMonoid T] {debounce : T}
  {events : List T}

theorem lt_of_mem_deadlines (hdebounce : 0 < debounce) {e t : T}
    (he : ∀ e' ∈ events, e ≤ e') (ht : t ∈ deadlines debounce events) : e < t := by
  obtain ⟨before, e', after, rfl, rfl, -⟩ := mem_deadlines.mp ht
  exact (he e' (by simp)).trans_lt (lt_add_of_pos_right e' hdebounce)

theorem pairwise_deadlines (hdebounce : 0 < debounce) :
    (deadlines debounce events).Pairwise (· < ·) := by
  induction events with
  | nil => exact .nil
  | cons e later ih =>
    rw [deadlines_cons]
    split
    case isTrue hquiet =>
      refine .cons (fun t ht ↦ ?_) ih
      exact lt_of_mem_deadlines hdebounce (fun e' he' ↦ not_lt.mp (hquiet e' he')) ht
    case isFalse => exact ih

end Deadlines

/-! ## What every course keeps -/

namespace Course

variable [Add T] {rules : WatchRules} {debounce now : T} {files : T → FileTree}
  {log : List (Happening T)} {w : Watcher T}

theorem nodup [LE T] (h : Course rules debounce files log now w) :
    (w.timers.map (·.path)).Nodup := by
  induction h with
  | start => exact List.nodup_nil
  | wait _ _ _ ih => exact ih
  | tell _ raw ih =>
    rw [handle]
    split
    · rw [List.map_append, List.nodup_append]
      refine ⟨nodup_dropTimer ih, List.nodup_singleton _, ?_⟩
      rintro p hp q hq rfl
      obtain ⟨timer, htimer, rfl⟩ := List.mem_map.mp hp
      exact (mem_dropTimer.mp htimer).2 (List.mem_singleton.mp hq)
    · exact ih
  | runOut _ _ _ ih =>
    rw [timers_fire]
    exact nodup_dropTimer ih
  | finish _ _ _ ih => exact ih

end Course

/-- No change of a path comes at the very time at which a timer of the path is still to run out. -/
def Unambiguous [Add T] [LinearOrder T] (rules : WatchRules) (debounce : T) (files : T → FileTree)
    (path : String) (log : List (Happening T)) : Prop :=
  ∀ before x after, log = before ++ x :: after → ∀ time ∈ x.changedAt? rules files path,
    time ∈ deadlines debounce (changedAt rules files path before) → time ∈ ranOutAt path before

section Invariant

variable [Add T] [LinearOrder T] {rules : WatchRules} {debounce now : T} {files : T → FileTree}
  {path : String} {log : List (Happening T)} {x : Happening T} {w : Watcher T}

theorem unambiguous_concat : Unambiguous rules debounce files path (log ++ [x]) ↔
    Unambiguous rules debounce files path log ∧ ∀ time ∈ x.changedAt? rules files path,
      time ∈ deadlines debounce (changedAt rules files path log) → time ∈ ranOutAt path log := by
  constructor
  · refine fun h ↦ ⟨fun before y after hlog ↦ h before y (after ++ [x]) ?_, h log x [] rfl⟩
    rw [hlog, List.append_assoc, List.cons_append]
  · rintro ⟨h, hx⟩ before y after hlog
    rcases List.eq_nil_or_concat after with rfl | ⟨after, z, rfl⟩
    · obtain ⟨rfl, hlast⟩ := List.append_inj' hlog rfl
      obtain rfl := List.singleton_inj.mp hlast
      exact hx
    · rw [List.concat_eq_append, ← List.cons_append, ← List.append_assoc] at hlog
      exact h before y after (List.append_inj' hlog rfl).1

/-- The invariant, for one path. -/
structure Debounced (rules : WatchRules) (debounce : T) (files : T → FileTree) (path : String)
    (log : List (Happening T)) (now : T) (w : Watcher T) : Prop where
  deadlines : deadlines debounce (changedAt rules files path log) = ranOutAt path log ++ w.dues path
  started : startedAt path log = (ranOutAt path log).filter fun t ↦ (files t).isFile path
  past : ∀ t ∈ ranOutAt path log, t ≤ now

/-- A timer runs out. -/
theorem Debounced.runOut (h : Debounced rules debounce files path log now w)
    (hnodup : (w.timers.map (·.path)).Nodup) {timer : Timer T} (htimer : timer ∈ w.timers)
    (hdue : timer.due = now) {change : Option Change} {w' : Watcher T}
    (hfire : w.fire timer.path ((files now).isFile timer.path) = (w', change)) :
    Debounced rules debounce files path (log ++ [.ranOut now timer.path change]) now w' := by
  have hchange : change
      = if (files now).isFile timer.path then some ⟨w.started, timer.path⟩ else none :=
    (congrArg Prod.snd hfire).symm.trans snd_fire
  obtain rfl : (w.fire timer.path ((files now).isFile timer.path)).1 = w' := congrArg Prod.fst hfire
  have hchanged : changedAt rules files path (log ++ [.ranOut now timer.path change])
      = changedAt rules files path log := changedAt_concat.trans (List.append_nil _)
  by_cases hpath : timer.path = path
  · subst hpath
    have hranOut : ranOutAt timer.path (log ++ [.ranOut now timer.path change])
        = ranOutAt timer.path log ++ [now] := by
      rw [ranOutAt_concat, Happening.ranOutAt?, if_pos rfl, Option.toList_some]
    constructor
    case deadlines =>
      rw [hchanged, hranOut, dues_fire, List.append_nil, h.deadlines, dues_of_mem hnodup htimer, hdue]
    case started =>
      rw [startedAt_concat, hranOut, List.filter_append, ← h.started, hchange]
      cases hfile : (files now).isFile timer.path <;> simp [Happening.startedAt?, hfile]
    case past =>
      rw [hranOut]
      intro t ht
      rcases List.mem_append.mp ht with hold | hnew
      · exact h.past t hold
      · exact (List.mem_singleton.mp hnew).le
  · have hranOut : ranOutAt path (log ++ [.ranOut now timer.path change]) = ranOutAt path log := by
      rw [ranOutAt_concat, Happening.ranOutAt?, if_neg hpath, Option.toList_none, List.append_nil]
    have hstarted : startedAt path (log ++ [.ranOut now timer.path change]) = startedAt path log := by
      rw [startedAt_concat, hchange]
      cases (files now).isFile timer.path <;> simp [Happening.startedAt?, hpath]
    refine ⟨?_, hstarted ▸ hranOut ▸ h.started, hranOut ▸ h.past⟩
    rw [hchanged, hranOut, dues_fire_of_ne hpath, h.deadlines]

/-- A change has been dealt with. -/
theorem Debounced.finish (h : Debounced rules debounce files path log now w) (change : Change)
    (result : Except Fault Unit) :
    Debounced rules debounce files path (log ++ [.finished now change result]) now
      (w.finish change.number) := by
  have hchanged : changedAt rules files path (log ++ [.finished now change result])
      = changedAt rules files path log := changedAt_concat.trans (List.append_nil _)
  have hranOut : ranOutAt path (log ++ [.finished now change result]) = ranOutAt path log :=
    ranOutAt_concat.trans (List.append_nil _)
  have hstarted : startedAt path (log ++ [.finished now change result]) = startedAt path log :=
    startedAt_concat.trans (List.append_nil _)
  exact ⟨hchanged ▸ hranOut ▸ h.deadlines, hstarted ▸ hranOut ▸ h.started, hranOut ▸ h.past⟩

/-- The deadlines of a path at which there is such a file. -/
def startsDue (rules : WatchRules) (debounce : T) (files : T → FileTree) (path : String)
    (log : List (Happening T)) : List T :=
  (deadlines debounce (changedAt rules files path log)).filter fun t ↦ (files t).isFile path

theorem Debounced.startsDue_eq (h : Debounced rules debounce files path log now w) :
    startsDue rules debounce files path log
      = startedAt path log ++ (w.dues path).filter fun t ↦ (files t).isFile path := by
  rw [startsDue, h.deadlines, List.filter_append, h.started]

end Invariant

section Course

variable [AddCommMonoid T] [LinearOrder T] [IsOrderedCancelAddMonoid T] {rules : WatchRules}
  {debounce now : T} {files : T → FileTree} {path : String} {log : List (Happening T)} {w : Watcher T}

theorem Course.le_due (hdebounce : 0 < debounce) (h : Course rules debounce files log now w) :
    ∀ timer ∈ w.timers, now ≤ timer.due := by
  induction h with
  | start => exact fun _ htimer ↦ absurd htimer List.not_mem_nil
  | wait _ _ hpending _ => exact hpending
  | tell _ raw ih =>
    rw [handle]
    split
    · intro timer htimer
      rcases List.mem_append.mp htimer with hold | hnew
      · exact ih timer (mem_dropTimer.mp hold).1
      · rw [List.mem_singleton.mp hnew]
        exact (lt_add_of_pos_right _ hdebounce).le
    · exact ih
  | runOut _ _ _ ih =>
    rw [timers_fire]
    exact fun timer htimer ↦ ih timer (mem_dropTimer.mp htimer).1
  | finish _ _ _ ih => exact ih

theorem Debounced.pairwise (hdebounce : 0 < debounce)
    (h : Debounced rules debounce files path log now w) :
    (ranOutAt path log ++ w.dues path).Pairwise (· < ·) :=
  h.deadlines ▸ pairwise_deadlines hdebounce

/-- The watcher is told of a path. -/
theorem Debounced.tell (hdebounce : 0 < debounce) (h : Debounced rules debounce files path log now w)
    (hdue : ∀ timer ∈ w.timers, now ≤ timer.due) (raw : String)
    (hlog : Unambiguous rules debounce files path (log ++ [.told now raw])) :
    Debounced rules debounce files path (log ++ [.told now raw]) now
      (w.handle rules debounce now ((files now).realPath raw)) := by
  have hranOut : ranOutAt path (log ++ [.told now raw]) = ranOutAt path log :=
    ranOutAt_concat.trans (List.append_nil _)
  have hstarted : startedAt path (log ++ [.told now raw]) = startedAt path log :=
    startedAt_concat.trans (List.append_nil _)
  refine ⟨?_, hstarted ▸ hranOut ▸ h.started, hranOut ▸ h.past⟩
  rw [hranOut, changedAt_concat, Happening.changedAt?]
  by_cases hchange : (files now).realPath raw = path ∧ rules.accepts path = true
  · obtain ⟨hpath, haccepts⟩ := hchange
    have hover : (ranOutAt path log).filter (fun t ↦ t ≤ now) = ranOutAt path log :=
      List.filter_eq_self.mpr fun t ht ↦ decide_eq_true (h.past t ht)
    -- The pending deadline is not over, and not even now.
    have hpending : (w.dues path).filter (fun t ↦ t ≤ now) = [] := by
      apply List.filter_eq_nil_iff.mpr
      intro t ht hle
      obtain ⟨timer, htimer, -, rfl⟩ := mem_timers_of_mem_dues ht
      obtain rfl : timer.due = now := le_antisymm (of_decide_eq_true hle) (hdue timer htimer)
      have hmem : timer.due ∈ ranOutAt path log ++ w.dues path := List.mem_append_right _ ht
      have hchanged : timer.due ∈ (Happening.told timer.due raw).changedAt? rules files path :=
        if_pos ⟨hpath, haccepts⟩
      have hranOut := (unambiguous_concat.mp hlog).2 timer.due hchanged (h.deadlines ▸ hmem)
      exact lt_irrefl _ ((List.pairwise_append.mp (h.pairwise hdebounce)).2.2 _ hranOut _ ht)
    rw [if_pos ⟨hpath, haccepts⟩, Option.toList_some, deadlines_concat, h.deadlines,
      List.filter_append, hover, hpending, List.append_nil, hpath, dues_handle haccepts]
  · rw [if_neg hchange, Option.toList_none, List.append_nil, h.deadlines]
    congr 1
    by_cases hpath : (files now).realPath raw = path
    · rw [handle, hpath, if_neg fun haccepts ↦ hchange ⟨hpath, haccepts⟩]
    · exact (dues_handle_of_ne hpath).symm

theorem Course.debounced (hdebounce : 0 < debounce) (h : Course rules debounce files log now w)
    (hlog : Unambiguous rules debounce files path log) :
    Debounced rules debounce files path log now w := by
  induction h with
  | start => exact ⟨rfl, rfl, fun _ ht ↦ absurd ht List.not_mem_nil⟩
  | wait _ hlater _ ih =>
    obtain ⟨hdeadlines, hstarted, hpast⟩ := ih hlog
    exact ⟨hdeadlines, hstarted, fun t ht ↦ (hpast t ht).trans hlater⟩
  | tell h raw ih =>
    exact (ih (unambiguous_concat.mp hlog).1).tell hdebounce (h.le_due hdebounce) raw hlog
  | runOut h htimer hdue ih => exact (ih (unambiguous_concat.mp hlog).1).runOut h.nodup htimer hdue rfl
  | finish _ _ result ih => exact (ih (unambiguous_concat.mp hlog).1).finish _ result

/-! ## Time goes on

The timer that runs out next is always one that may run out before any time passes by another, so
there is a course for every sequence of notifications. -/

/-- When a timer runs out. -/
def Happening.isRanOut : Happening T → Bool
  | ranOut .. => true
  | _ => false

theorem Course.exists_later (hdebounce : 0 < debounce) (h : Course rules debounce files log now w)
    {later : T} (hlater : now ≤ later) : ∃ more w',
      Course rules debounce files (log ++ more) later w' ∧ ∀ x ∈ more, x.isRanOut = true := by
  -- With every timer that runs out there are fewer timers.
  induction hn : w.timers.length using Nat.strong_induction_on generalizing log now w with
  | _ n ih =>
    have hpasses (hpending : ∀ timer ∈ w.timers, later ≤ timer.due) : ∃ more w',
        Course rules debounce files (log ++ more) later w' ∧ ∀ x ∈ more, x.isRanOut = true := by
      refine ⟨[], w, ?_, fun x hx ↦ absurd hx List.not_mem_nil⟩
      rw [List.append_nil]
      exact h.wait hlater hpending
    by_cases htimers : w.timers = []
    · refine hpasses fun timer htimer ↦ absurd htimer ?_
      rw [htimers]
      exact List.not_mem_nil
    · obtain ⟨timer, -, htimer, hfirst⟩ := exists_next? htimers
      by_cases hdue : later ≤ timer.due
      · exact hpasses fun t ht ↦ hdue.trans (hfirst t ht)
      · have hfired := (h.wait (h.le_due hdebounce timer htimer) hfirst).runOut htimer rfl
        have hfewer : (w.fire timer.path ((files timer.due).isFile timer.path)).1.timers.length < n := by
          rw [timers_fire, ← hn]
          exact List.length_filter_lt_length_iff_exists.mpr ⟨timer, htimer, by simp⟩
        obtain ⟨more, w', hmore, hranOut⟩ := ih _ hfewer hfired (not_le.mp hdue).le rfl
        rw [List.append_assoc] at hmore
        exact ⟨_, w', hmore, List.forall_mem_append.mpr ⟨by simp [Happening.isRanOut], hranOut⟩⟩

/-- What the watcher is told. -/
def Happening.told? : Happening T → Option (T × String)
  | told time raw => some (time, raw)
  | _ => none

/-- Every sequence of notifications has a course. -/
theorem exists_course (hdebounce : 0 < debounce) (events : List (T × String))
    (hevents : events.Pairwise fun e e' ↦ e.1 ≤ e'.1) {later : T}
    (hlater : ∀ e ∈ events, e.1 ≤ later) :
    ∃ log w, Course rules debounce files log later w ∧ log.filterMap (·.told?) = events := by
  induction events using List.reverseRecOn generalizing later with
  | nil => exact ⟨[], .new, .start later, rfl⟩
  | append_singleton events e ih =>
    obtain ⟨hpairwise, -, hlast⟩ := List.pairwise_append.mp hevents
    obtain ⟨log, w, hcourse, hlog⟩ := ih hpairwise
      fun e' he' ↦ hlast e' he' e (List.mem_singleton_self e)
    obtain ⟨more, w', hmore, hranOut⟩ :=
      (hcourse.tell e.2).exists_later hdebounce (hlater e (by simp))
    refine ⟨_, w', hmore, ?_⟩
    have hnone : more.filterMap (·.told?) = [] := by
      apply List.filterMap_eq_nil_iff.mpr
      intro x hx
      have hx' : x.isRanOut = true := hranOut x hx
      cases x with
      | ranOut => rfl
      | told | finished => exact absurd hx' Bool.false_ne_true
    rw [List.filterMap_append, List.filterMap_append, hlog, hnone, List.append_nil]
    rfl

/-! ## Starts -/

theorem Course.mem_startedAt_iff (hdebounce : 0 < debounce)
    (h : Course rules debounce files log now w)
    (hlog : Unambiguous rules debounce files path log) {t : T} (ht : t < now) :
    t ∈ startedAt path log ↔ t ∈ startsDue rules debounce files path log := by
  rw [(h.debounced hdebounce hlog).startsDue_eq, List.mem_append]
  refine (or_iff_left fun hpending ↦ ?_).symm
  obtain ⟨timer, htimer, -, rfl⟩ := mem_timers_of_mem_dues (List.mem_filter.mp hpending).1
  exact (h.le_due hdebounce timer htimer).not_gt ht

/-- **Debouncing is exact, path by path.** In the course of a watcher that is not stopped, the changes
of a path are started at the deadlines of the path at which there is such a file: one after the other,
each once, none else, and none is left out that is over. So what is started for a path depends on the
changes of that path only, whatever else the watcher is told of and whatever becomes of the changes
that are dealt with. -/
theorem changes_start_at_deadlines (hdebounce : 0 < debounce)
    (h : Course rules debounce files log now w)
    (hlog : Unambiguous rules debounce files path log) :
    startedAt path log <+: startsDue rules debounce files path log ∧
    (startsDue rules debounce files path log).Pairwise (· < ·) ∧
    (∀ t ∈ startsDue rules debounce files path log, t < now → t ∈ startedAt path log) ∧
    ∀ files' log' now' w', Course rules debounce files' log' now' w' →
      Unambiguous rules debounce files' path log' →
      changedAt rules files' path log' = changedAt rules files path log →
      (∀ t, (files' t).isFile path = (files t).isFile path) →
      ∀ t, t < now → t < now' → (t ∈ startedAt path log' ↔ t ∈ startedAt path log) := by
  refine ⟨?_, ?_, ?_, ?_⟩
  · rw [(h.debounced hdebounce hlog).startsDue_eq]
    exact List.prefix_append _ _
  · exact (pairwise_deadlines hdebounce).filter _
  · intro t hdue ht
    exact (h.mem_startedAt_iff hdebounce hlog ht).mpr hdue
  · intro files' log' now' w' h' hlog' hchanged hfiles t ht ht'
    have hdue : startsDue rules debounce files' path log' = startsDue rules debounce files path log := by
      rw [startsDue, startsDue, hchanged]
      exact List.filter_congr fun t _ ↦ hfiles t
    rw [h.mem_startedAt_iff hdebounce hlog ht, h'.mem_startedAt_iff hdebounce hlog' ht', hdue]

end Course

/-! ## A file that changes twice in a while -/

section Example

def loneFile : FileTree := .directory [("a.ts", .file "".toUTF8)]

def loneRules : WatchRules := ⟨"/", [".ts"], [], fun _ ↦ false⟩

abbrev LoneCourse : List (Happening ℕ) → ℕ → Watcher ℕ → Prop :=
  Course loneRules 2 fun _ ↦ loneFile

def twoChanges : List (Happening ℕ) :=
  [.told 0 "/a.ts", .told 1 "/./a.ts", .ranOut 3 "/a.ts" (some ⟨0, "/a.ts"⟩)]

theorem realPath_loneFile {raw : String} (h : FileTree.plainPlace raw = ["a.ts"]) :
    loneFile.realPath raw = "/a.ts" := by
  have hpath : FileTree.pathOf ["a.ts"] = "/a.ts" := by decide +kernel
  rw [FileTree.realPath_of_linkless rfl, ← hpath, ← h]

theorem isFile_loneFile : loneFile.isFile "/a.ts" = true := by
  have hplace : FileTree.plainPlace "/a.ts" = ["a.ts"] := by decide +kernel
  rw [FileTree.isFile, FileTree.read, if_neg (by decide +kernel),
    FileTree.placeOf_of_linkless rfl, hplace]
  rfl

/-- The timer is started anew, however the path is spelled. -/
theorem LoneCourse.tell {log : List (Happening ℕ)} {now : ℕ} {w : Watcher ℕ}
    (h : LoneCourse log now w) {raw : String} (hraw : FileTree.plainPlace raw = ["a.ts"])
    (hw : ∀ t ∈ w.timers, t.path = "/a.ts") :
    LoneCourse (log ++ [.told now raw]) now { w with timers := [⟨"/a.ts", now + 2⟩] } := by
  have hdrop : dropTimer "/a.ts" w.timers = [] := by
    simpa [dropTimer, List.filter_eq_nil_iff] using hw
  have hhandle : w.handle loneRules 2 now (loneFile.realPath raw)
      = { w with timers := [⟨"/a.ts", now + 2⟩] } := by
    rw [realPath_loneFile hraw, handle, if_pos (by decide +kernel), hdrop, List.nil_append]
  exact hhandle ▸ Course.tell h raw

theorem course_twoChanges : ∃ w, LoneCourse twoChanges 4 w := by
  have hplain : FileTree.plainPlace "/a.ts" = ["a.ts"] := by decide +kernel
  have hdotted : FileTree.plainPlace "/./a.ts" = ["a.ts"] := by decide +kernel
  have hfirst : LoneCourse [.told 0 "/a.ts"] 0 ⟨[⟨"/a.ts", 2⟩], [], 0, .watching⟩ :=
    LoneCourse.tell (.start 0) hplain (by simp [new])
  have hsecond : LoneCourse [.told 0 "/a.ts", .told 1 "/./a.ts"] 1
      ⟨[⟨"/a.ts", 3⟩], [], 0, .watching⟩ :=
    LoneCourse.tell (hfirst.wait (by decide) (by simp)) hdotted (by simp)
  have hdue : LoneCourse [.told 0 "/a.ts", .told 1 "/./a.ts"] 3
      ⟨[⟨"/a.ts", 3⟩], [], 0, .watching⟩ := hsecond.wait (by decide) (by simp)
  have hfired : LoneCourse twoChanges 3 ⟨[], [⟨0, "/a.ts"⟩], 1, .watching⟩ := by
    have h := hdue.runOut (List.mem_singleton_self _) rfl
    rw [isFile_loneFile] at h
    exact h
  exact ⟨_, hfired.wait (by decide) (by simp)⟩

/-- The change is started once, a while after the second notification. -/
theorem changes_start_at_deadlines_twice : (∃ w, LoneCourse twoChanges 4 w) ∧
    Unambiguous loneRules 2 (fun _ ↦ loneFile) "/a.ts" twoChanges ∧
    startedAt "/a.ts" twoChanges <+: [3] ∧ 3 ∈ startedAt "/a.ts" twoChanges := by
  obtain ⟨w, hcourse⟩ := course_twoChanges
  have hrealPath : loneFile.realPath "/a.ts" = "/a.ts" := realPath_loneFile (by decide +kernel)
  have hdotted : loneFile.realPath "/./a.ts" = "/a.ts" := realPath_loneFile (by decide +kernel)
  have haccepts : loneRules.accepts "/a.ts" = true := by decide +kernel
  have hlog : Unambiguous loneRules 2 (fun _ ↦ loneFile) "/a.ts" twoChanges := by
    have hempty : Unambiguous loneRules 2 (fun _ : ℕ ↦ loneFile) "/a.ts" [] := by
      intro before x after h
      exact absurd h (by simp)
    have hfirst : Unambiguous loneRules 2 (fun _ : ℕ ↦ loneFile) "/a.ts" [.told 0 "/a.ts"] :=
      unambiguous_concat.mpr ⟨hempty, by simp [changedAt, deadlines]⟩
    have hsecond : Unambiguous loneRules 2 (fun _ : ℕ ↦ loneFile) "/a.ts"
        [.told 0 "/a.ts", .told 1 "/./a.ts"] :=
      unambiguous_concat.mpr ⟨hfirst, by
        simp [changedAt, deadlines, Happening.changedAt?, hrealPath, hdotted, haccepts]⟩
    exact unambiguous_concat.mpr ⟨hsecond, by simp [Happening.changedAt?]⟩
  have hdue : startsDue loneRules 2 (fun _ ↦ loneFile) "/a.ts" twoChanges = [3] := by
    simp [startsDue, changedAt, twoChanges, Happening.changedAt?, deadlines, hrealPath, hdotted,
      haccepts, isFile_loneFile]
  obtain ⟨hinitial, -, hstarted, -⟩ := changes_start_at_deadlines (by decide) hcourse hlog
  rw [hdue] at hinitial hstarted
  exact ⟨⟨w, hcourse⟩, hlog, hinitial, hstarted 3 (List.mem_singleton_self 3) (by decide)⟩

end Example

end CodeAtlas.Watcher
