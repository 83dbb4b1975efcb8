import CodeAtlas.Rehearsal.Respond
import Mathlib.Data.List.Induction
import Mathlib.Data.List.Nodup

/-!
# What a record store holds

A record that is stored replaces the one with the same id. So a store in memory holds, for each id,
the record that was stored last, and if all ids are different it holds what was stored, in that order.
-/

namespace CodeAtlas

open Rehearsal (putRecord)

/-- What a store holds that was empty and in which these records have been put. -/
def holdings (stored : List FunctionRecord) : List FunctionRecord :=
  stored.foldl (fun records record ↦ putRecord record records) []

variable {record : FunctionRecord} {records stored : List FunctionRecord} {id : String}

theorem holdings_append (stored stored' : List FunctionRecord) :
    holdings (stored ++ stored')
      = stored'.foldl (fun records record ↦ putRecord record records) (holdings stored) :=
  List.foldl_append

theorem holdings_snoc (stored : List FunctionRecord) (record : FunctionRecord) :
    holdings (stored ++ [record]) = putRecord record (holdings stored) := holdings_append _ _

private theorem find?_map_replace : (records.map fun q ↦
      if q.id == record.id then record else q).find? (·.id == id) =
    if record.id = id then if records.any (·.id == record.id) then some record else none
    else records.find? (·.id == id) := by
  induction records with
  | nil => simp
  | cons q records ih =>
    rw [List.map_cons, List.find?_cons, ih, List.any_cons, List.find?_cons]
    by_cases hq : q.id = record.id
    · rw [if_pos (beq_iff_eq.mpr hq), hq, beq_self_eq_true, Bool.true_or, if_pos rfl]
      by_cases hid : record.id = id
      · simp only [if_pos hid, beq_iff_eq.mpr hid]
      · simp only [if_neg hid, beq_eq_false_iff_ne.mpr hid]
    · rw [if_neg (mt beq_iff_eq.mp hq), beq_eq_false_iff_ne.mpr hq, Bool.false_or]
      by_cases hid : record.id = id
      · subst hid
        rw [beq_eq_false_iff_ne.mpr hq]
      · rw [if_neg hid, if_neg hid]

theorem find?_putRecord : (putRecord record records).find? (·.id == id) =
    if record.id = id then some record else records.find? (·.id == id) := by
  rw [putRecord]
  split
  · rename_i hknown
    rw [find?_map_replace, if_pos hknown]
  · rename_i hnew
    rw [List.find?_append]
    split
    · rename_i hid
      have hnone : records.find? (·.id == id) = none := by
        rw [List.find?_eq_none]
        intro q hq heq
        exact hnew (List.any_eq_true.mpr ⟨q, hq, hid ▸ heq⟩)
      simp [hnone, hid]
    · rename_i hid
      simp [hid]

/-- **For each id the record is there that was stored last.** -/
theorem find?_holdings :
    (holdings stored).find? (·.id == id) = stored.reverse.find? (·.id == id) := by
  induction stored using List.reverseRecOn with
  | nil => rfl
  | append_singleton stored record ih =>
    rw [holdings_snoc, find?_putRecord, List.reverse_append, List.reverse_singleton,
      List.singleton_append, List.find?_cons]
    by_cases hid : record.id = id
    · rw [if_pos hid, beq_iff_eq.mpr hid]
    · rw [if_neg hid, beq_eq_false_iff_ne.mpr hid, ih]

/-- An id is known if something was stored under it. -/
theorem any_holdings : (holdings stored).any (·.id == id) = true ↔ id ∈ stored.map (·.id) := by
  have hfind : ((holdings stored).find? (·.id == id)).isSome
      = (stored.reverse.find? (·.id == id)).isSome := congrArg Option.isSome find?_holdings
  rw [List.isSome_find?, List.isSome_find?] at hfind
  rw [hfind]
  simp

theorem holdings_of_nodup (h : (stored.map (·.id)).Nodup) : holdings stored = stored := by
  induction stored using List.reverseRecOn with
  | nil => rfl
  | append_singleton stored record ih =>
    rw [List.map_append, List.map_singleton, List.nodup_append] at h
    obtain ⟨hstored, -, hnew⟩ := h
    have hunknown : ¬ (holdings stored).any (·.id == record.id) = true := by
      rw [any_holdings]
      exact fun hmem ↦ hnew _ hmem _ (List.mem_singleton_self _) rfl
    rw [holdings_snoc, putRecord, if_neg hunknown, ih hstored]

end CodeAtlas
