import CodeAtlas.Proofs.Program.Views
import CodeAtlas.Rehearsal.Clock

/-!
# What is done about a change

Whatever is done about a change, and however badly it ends, it ends: a failure is reported and goes no
further (`run_guarded`). And it is none of the watcher's business. When a timer runs out, the watcher
goes on from where the timer and the end of the change leave it (`watching_fireTimer`).
-/

namespace CodeAtlas

open Program

theorem Watch.run_guarded {σ : Type} {respond : Responder σ}
    (hnote : ∀ n s, (respond (.note n) s).1 = .ok ()) (path : String) (work : Program Unit) (s : σ) :
    ((guarded path work).run respond s).1 = .ok () := by
  have hreport (text : String) (s : σ) :
      ((report watcherName text).run respond s).1 = .ok () := by
    simp only [report, note, request, run, hnote]
  rw [guarded]
  induction work generalizing s with
  | done v => exact rfl
  | fail e => exact hreport _ s
  | ask r k ih => exact ih _ _

namespace Rehearsal

variable {r : Rehearsal} {path : String}

/-- No request concerns the watcher. -/
theorem watching_respond (request : Request) (r : Rehearsal) :
    (r.respond request).2.watching = r.watching := by
  rw [respond]
  split
  · rfl
  · cases request
    case mergeNode | deleteRelationship =>
      exact (congrArg watching (withStore_eq _ r)).trans rfl
    case flushGraph =>
      dsimp only [serve]
      split
      · exact (congrArg watching r.saveStore_eq).trans rfl
      · rfl
    case takeItem =>
      dsimp only [serve]
      split <;> rfl
    all_goals rfl

theorem watching_run {α : Type} (p : Program α) : (r.run p).2.watching = r.watching :=
  view_run watching watching_respond p r

theorem watching_handleChange (handler : ChangeHandler) :
    (r.handleChange handler path).watching = r.watching := by
  cases handler with
  | reindex => exact watching_run _
  | record fault =>
    cases fault with
    | none => rfl
    | some e => exact watching_run _

/-- A timer runs out: the watcher starts a change if there is such a file, and when that has been dealt
with, it is over. -/
theorem watching_fireTimer {w : Watching} (hw : r.watching = some w) :
    (r.fireTimer path).watching = some { w with
      watcher := match w.watcher.fire path (r.files.isFile path) with
        | (watcher, none) => watcher
        | (watcher, some change) => watcher.finish change.number } := by
  rw [fireTimer, hw]
  dsimp only
  cases w.watcher.fire path (r.files.isFile path) with
  | mk watcher change =>
    cases change with
    | none => rfl
    | some change =>
      exact congrArg (Option.map fun w : Watching ↦
        { w with watcher := w.watcher.finish change.number }) (watching_handleChange w.handler)

end Rehearsal

end CodeAtlas
