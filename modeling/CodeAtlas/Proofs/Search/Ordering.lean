import CodeAtlas.Search.Ranking
import Mathlib.Data.List.Perm.Basic

/-!
# Ordering candidates

Ordering loses no candidate and doubles none, whatever the comparison of their scores does: the
positions that are returned are a permutation of all positions. This is seen from how the two sorts
move candidates about and not from what they compare, so it also holds of scores that are not
comparable.

Where every score is comparable the sort is stable. A relation between the candidates as they come,
such as that of their positions, is still there among those that are equally good
(`pairwise_mergeSort_of_pairwise`).
-/

namespace CodeAtlas.Search

/-! ## Stable sorting -/

section Stable

variable {α : Type} {le : α → α → Bool} {R : α → α → Prop} {xs : List α}

/-- Sorting keeps how elements come that are as good as each other. -/
theorem pairwise_mergeSort_of_pairwise (htrans : ∀ a b c, le a b → le b c → le a c)
    (htotal : ∀ a b, (le a b || le b a) = true) (h : xs.Pairwise R) :
    (xs.mergeSort le).Pairwise fun a b ↦ le a b ∧ (le b a → R a b) := by
  -- Elements carry their positions while they are sorted, and equally good ones go by these.
  have hsorted := List.pairwise_mergeSort (List.zipIdxLE_trans htrans)
    (List.zipIdxLE_total htotal) xs.zipIdx
  have hperm := List.mergeSort_perm xs.zipIdx (List.zipIdxLE le)
  have hdistinct : (xs.zipIdx.mergeSort (List.zipIdxLE le)).Pairwise fun a b ↦ a.2 ≠ b.2 := by
    rw [← List.pairwise_map (f := Prod.snd) (R := (· ≠ ·))]
    refine (hperm.map _).nodup_iff.mpr ?_
    rw [List.zipIdx_map_snd]
    exact List.nodup_range'
  rw [← List.mergeSort_zipIdx, List.pairwise_map]
  refine (hsorted.and hdistinct).imp_of_mem ?_
  rintro ⟨a, i⟩ ⟨b, j⟩ ha hb ⟨hle, hne⟩
  have hxi : xs[i]? = some a := List.mem_zipIdx_iff_getElem?.mp (hperm.mem_iff.mp ha)
  have hxj : xs[j]? = some b := List.mem_zipIdx_iff_getElem?.mp (hperm.mem_iff.mp hb)
  obtain ⟨hi, rfl⟩ := List.getElem?_eq_some_iff.mp hxi
  obtain ⟨hj, rfl⟩ := List.getElem?_eq_some_iff.mp hxj
  rw [List.zipIdxLE] at hle
  dsimp only at hle hne ⊢
  by_cases hab : le xs[i] xs[j]
  · refine ⟨hab, fun hba ↦ ?_⟩
    rw [if_pos hab, if_pos hba, decide_eq_true_iff] at hle
    exact List.pairwise_iff_getElem.mp h i j hi hj (Nat.lt_of_le_of_ne hle hne)
  · rw [if_neg hab] at hle
    exact absurd hle Bool.false_ne_true

/-- Of two elements of a list one comes before the other. -/
theorem pair_sublist_or {a b : α} (ha : a ∈ xs) (hb : b ∈ xs) (hne : a ≠ b) :
    [a, b].Sublist xs ∨ [b, a].Sublist xs := by
  induction xs with
  | nil => exact absurd ha List.not_mem_nil
  | cons x xs ih =>
    rcases List.mem_cons.mp ha with rfl | hax
    · have hb := (List.mem_cons.mp hb).resolve_left hne.symm
      exact Or.inl ((List.singleton_sublist.mpr hb).cons_cons a)
    · rcases List.mem_cons.mp hb with rfl | hbx
      · exact Or.inr ((List.singleton_sublist.mpr hax).cons_cons b)
      · exact (ih hax hbx).imp (·.cons x) (·.cons x)

/-- In a list that is in order, what may not come behind another element comes before it. -/
theorem pair_sublist_of_pairwise {a b : α} (h : xs.Pairwise R) (ha : a ∈ xs) (hb : b ∈ xs)
    (hne : a ≠ b) (hnot : ¬ R b a) : [a, b].Sublist xs := by
  refine (pair_sublist_or ha hb hne).resolve_right fun hsub ↦ hnot ?_
  exact List.rel_of_pairwise_cons (h.sublist hsub) List.mem_cons_self

end Stable

/-! ## Nothing is lost -/

/-- Where the element is inserted does not matter here. -/
theorem perm_insert {α : Type} (sorted : Array α) (x : α) (i : Nat) :
    ((sorted.extract 0 i).push x ++ sorted.extract i sorted.size).toList.Perm
      (sorted.toList ++ [x]) := by
  have hrest : (sorted.toList.drop i).take (sorted.toList.length - i) = sorted.toList.drop i :=
    List.take_of_length_le (List.length_drop ▸ Nat.le_refl _)
  rw [Array.toList_append, Array.toList_push, Array.toList_extract, Array.toList_extract,
    List.extract, List.extract, List.drop_zero, Nat.sub_zero, ← Array.length_toList, hrest,
    List.append_assoc]
  refine (List.perm_append_comm.append_left _).trans ?_
  rw [← List.append_assoc, List.take_append_drop]

variable {K : Type} [LT K] [DecidableLT K]

theorem insertionOrder_perm (xs : List (Nat × K)) : (insertionOrder xs).Perm xs := by
  have hfold : ∀ (rest : List (Nat × K)) (sorted : Array (Nat × K)),
      (rest.foldl (fun sorted x ↦
        (sorted.extract 0 (bisect sorted x (sorted.size + 1) 0 sorted.size)).push x ++
          sorted.extract (bisect sorted x (sorted.size + 1) 0 sorted.size) sorted.size)
        sorted).toList.Perm (sorted.toList ++ rest) := by
    intro rest
    induction rest with
    | nil => exact fun sorted ↦ (List.append_nil _).symm ▸ List.Perm.refl _
    | cons x rest ih =>
      intro sorted
      refine (ih _).trans ?_
      rw [← List.singleton_append (l := rest), ← List.append_assoc]
      exact (perm_insert sorted x _).append_right rest
  have htake : ∀ n, xs.take n = xs.take (xs.take n).length := by
    intro n
    rw [List.length_take, ← List.take_eq_take_min]
  rw [insertionOrder]
  refine (hfold _ _).trans ?_
  dsimp only
  split
  · rw [List.length_reverse]
    refine ((List.reverse_perm _).append_right _).trans ?_
    nth_rewrite 1 [htake (fallingRun xs)]
    rw [List.take_append_drop]
  · nth_rewrite 1 [htake (risingRun xs)]
    rw [List.take_append_drop]

variable [BEq K]

theorem sortCandidates_perm (xs : List (Nat × K)) : (sortCandidates xs).Perm xs := by
  rw [sortCandidates]
  split
  · exact List.mergeSort_perm xs _
  · exact insertionOrder_perm xs

theorem exists_order_perm {count : Nat} {sums : List K} (h : count ≤ sums.length) :
    ∃ positions, order count sums = .ok positions ∧ positions.Perm (List.range count) := by
  have hfst : ((List.range count).zip sums).map Prod.fst = List.range count :=
    List.map_fst_zip (by rwa [List.length_range])
  refine ⟨_, if_neg (Nat.not_lt.mpr h), ?_⟩
  have hperm := (sortCandidates_perm ((List.range count).zip sums)).map Prod.fst
  rwa [hfst] at hperm

/-! ## Lengths -/

variable [Sub K] [Div K] [OfScientific K]

@[simp] theorem length_normalize (xs : List K) : (normalize xs).length = xs.length := by
  cases xs with
  | nil => rfl
  | cons x xs =>
    rw [normalize]
    split <;> rw [List.length_map]

variable [Add K] [Mul K] {w : Weights K} {similarity relevance : List K}

theorem combine_eq (h : similarity.length = relevance.length) :
    combine w similarity relevance = .ok (List.zipWith (· + ·)
      ((normalize similarity).map (· * w.vector)) ((normalize relevance).map (· * w.relevance))) := by
  have hlength : ((normalize similarity).map (· * w.vector)).length
      = ((normalize relevance).map (· * w.relevance)).length := by
    rw [List.length_map, List.length_map, length_normalize, length_normalize, h]
  exact if_pos (beq_iff_eq.mpr hlength)

theorem exists_combine (w : Weights K) (h : similarity.length = relevance.length) :
    ∃ sums, combine w similarity relevance = .ok sums ∧ sums.length = relevance.length := by
  refine ⟨_, combine_eq h, ?_⟩
  rw [List.length_zipWith, List.length_map, List.length_map, length_normalize, length_normalize, h,
    Nat.min_self]

theorem rank_cons {y : K} {sums : List K} (h : combine w similarity (y :: relevance) = .ok sums) :
    rank w similarity (y :: relevance) = order (y :: relevance).length sums := by
  rw [rank, h]
  rfl

/-- **Ranking succeeds and returns every position once**, whatever the scores and weights are. -/
theorem exists_rank_perm (w : Weights K) (h : similarity.length = relevance.length) :
    ∃ positions, rank w similarity relevance = .ok positions ∧
      positions.Perm (List.range relevance.length) := by
  cases relevance with
  | nil => exact ⟨[], rfl, List.Perm.refl _⟩
  | cons y relevance =>
    obtain ⟨sums, hsums, hlength⟩ := exists_combine w h
    rw [rank_cons hsums]
    exact exists_order_perm (Nat.le_of_eq hlength.symm)

end CodeAtlas.Search
