import CodeAtlas.Proofs.Search.Ordering
import Mathlib.Algebra.Order.Field.Rat
import Mathlib.Data.List.Zip

/-!
# Dominance

In exact arithmetic ranking respects both kinds of scores. Bringing scores to a common range is
increasing on the scores at hand: it is affine if they are not all the same, and otherwise there is
nothing to be increasing on. So the weighted sum of a candidate grows with either of its scores whose
weight is positive, and a candidate that is nowhere worse and somewhere better goes first.

Ordering by sums is a stable sort of the numbered candidates (`bestFirst`). The sums do not occur in
its result, so where they compare as the similarities do they can be replaced by these.
-/

namespace CodeAtlas.Search

/-! ## Bringing scores to a common range -/

theorem isComparable_of_rat (x : ℚ) : isComparable x = true := beq_self_eq_true x

/-- What each step leaves in a relation to the two elements is so to all of them in the end. -/
private theorem foldl_related {r : ℚ → ℚ → Prop} (hrefl : ∀ a, r a a)
    (htrans : ∀ a b c, r a b → r b c → r a c) {step : ℚ → ℚ → ℚ}
    (hstep : ∀ m y, r (step m y) m ∧ r (step m y) y) (x : ℚ) (xs : List ℚ) :
    ∀ y ∈ x :: xs, r (xs.foldl step x) y := by
  induction xs generalizing x with
  | nil =>
    intro y hy
    rw [List.mem_singleton.mp hy]
    exact hrefl x
  | cons z xs ih =>
    have hfirst := ih (step x z) (step x z) List.mem_cons_self
    rw [List.foldl_cons, List.forall_mem_cons, List.forall_mem_cons]
    exact ⟨htrans _ _ _ hfirst (hstep x z).1, htrans _ _ _ hfirst (hstep x z).2,
      fun y hy ↦ ih (step x z) y (List.mem_cons_of_mem _ hy)⟩

theorem leastFrom_le (x : ℚ) (xs : List ℚ) : ∀ y ∈ x :: xs, leastFrom x xs ≤ y := by
  refine foldl_related (r := (· ≤ ·)) le_refl (fun _ _ _ ↦ le_trans) (fun m y ↦ ?_) x xs
  simp only [isComparable_of_rat, Bool.not_true, Bool.false_eq_true, if_false, Bool.false_or,
    decide_eq_true_eq]
  split
  · rename_i h
    exact ⟨h.le, le_refl y⟩
  · rename_i h
    exact ⟨le_refl m, not_lt.mp h⟩

theorem le_greatestFrom (x : ℚ) (xs : List ℚ) : ∀ y ∈ x :: xs, y ≤ greatestFrom x xs := by
  refine foldl_related (r := (· ≥ ·)) le_refl (fun _ _ _ ↦ ge_trans) (fun m y ↦ ?_) x xs
  simp only [isComparable_of_rat, Bool.not_true, Bool.false_eq_true, if_false, Bool.false_or,
    decide_eq_true_eq]
  split
  · rename_i h
    exact ⟨h.le, le_refl y⟩
  · rename_i h
    exact ⟨le_refl m, not_lt.mp h⟩

/-- Scores are brought to a common range by a function that is increasing on them. -/
theorem exists_normalize (xs : List ℚ) :
    ∃ f : ℚ → ℚ, normalize xs = xs.map f ∧ StrictMonoOn f {x | x ∈ xs} := by
  cases xs with
  | nil => exact ⟨id, rfl, strictMono_id.strictMonoOn _⟩
  | cons x xs =>
    have hleast := leastFrom_le x xs
    have hgreatest := le_greatestFrom x xs
    by_cases hflat : greatestFrom x xs == leastFrom x xs
    · refine ⟨fun _ ↦ 0.5, if_pos hflat, fun a ha b hb hab ↦ absurd hab (not_lt.mpr ?_)⟩
      calc b ≤ greatestFrom x xs := hgreatest b hb
        _ = leastFrom x xs := eq_of_beq hflat
        _ ≤ a := hleast a ha
    · have hspread : 0 < greatestFrom x xs - leastFrom x xs := by
        rw [sub_pos]
        exact lt_of_le_of_ne ((hleast x List.mem_cons_self).trans (hgreatest x List.mem_cons_self))
          fun h ↦ hflat (beq_iff_eq.mpr h.symm)
      refine ⟨fun y ↦ (y - leastFrom x xs) / (greatestFrom x xs - leastFrom x xs), if_neg hflat,
        fun a _ b _ hab ↦ ?_⟩
      exact div_lt_div_of_pos_right (sub_lt_sub_right hab _) hspread

/-- The weighted sums of candidates, as a function of their two scores. -/
theorem exists_combine_map (w : Weights ℚ) (candidates : List (ℚ × ℚ)) :
    ∃ f g : ℚ → ℚ, combine w (candidates.map Prod.fst) (candidates.map Prod.snd)
        = .ok (candidates.map fun c ↦ f c.1 * w.vector + g c.2 * w.relevance) ∧
      StrictMonoOn f {x | x ∈ candidates.map Prod.fst} ∧
      StrictMonoOn g {y | y ∈ candidates.map Prod.snd} := by
  obtain ⟨f, hf, hfmono⟩ := exists_normalize (candidates.map Prod.fst)
  obtain ⟨g, hg, hgmono⟩ := exists_normalize (candidates.map Prod.snd)
  refine ⟨f, g, ?_, hfmono, hgmono⟩
  rw [combine_eq (by rw [List.length_map, List.length_map]), hf, hg, List.map_map, List.map_map,
    List.map_map, List.map_map, List.zipWith_map, List.zipWith_self]
  rfl

/-! ## The order of sums -/

section BestFirst

variable {α : Type} {score : α → ℚ} {xs : List α}

/-- The positions of elements in a stable sort by score, best first. -/
def bestFirst (score : α → ℚ) (xs : List α) : List ℕ :=
  (xs.zipIdx.mergeSort fun a b ↦ score b.1 ≤ score a.1).map Prod.snd

theorem bestFirst_perm (score : α → ℚ) (xs : List α) :
    (bestFirst score xs).Perm (List.range xs.length) := by
  have hperm := (List.mergeSort_perm xs.zipIdx fun a b ↦ score b.1 ≤ score a.1).map Prod.snd
  rwa [List.zipIdx_map_snd, ← List.range_eq_range'] at hperm

theorem order_map_eq (score : α → ℚ) (xs : List α) :
    order xs.length (xs.map score) = .ok (bestFirst score xs) := by
  have hnumbered : (List.range xs.length).zip (xs.map score)
      = xs.zipIdx.map fun p ↦ (p.2, score p.1) := by
    rw [List.zipIdx_eq_zip_range', ← List.range_eq_range', List.zip_map_right, ← List.zip_swap,
      List.map_map]
    rfl
  have hsort : sortCandidates ((List.range xs.length).zip (xs.map score))
      = (xs.zipIdx.mergeSort fun a b ↦ score b.1 ≤ score a.1).map fun p ↦ (p.2, score p.1) := by
    have hall : ((List.range xs.length).zip (xs.map score)).all (fun p ↦ isComparable p.2) = true :=
      List.all_eq_true.mpr fun p _ ↦ isComparable_of_rat p.2
    rw [sortCandidates, if_pos hall, hnumbered]
    refine (List.map_mergeSort fun a _ b _ ↦ ?_).symm
    rw [isBetter, ← decide_not]
    exact decide_eq_decide.mpr not_lt.symm
  rw [order, if_neg (by rw [List.length_map]; exact Nat.lt_irrefl _), hsort, List.map_map]
  rfl

theorem bestFirst_congr {score' : α → ℚ}
    (h : ∀ a ∈ xs, ∀ b ∈ xs, score a ≤ score b ↔ score' a ≤ score' b) :
    bestFirst score xs = bestFirst score' xs := by
  have hmem : ∀ p ∈ xs.zipIdx, p.1 ∈ xs := fun p hp ↦ List.fst_mem_of_mem_zipIdx hp
  have hsort := List.map_mergeSort (f := id) (l := xs.zipIdx)
    (r := fun a b ↦ decide (score b.1 ≤ score a.1)) (s := fun a b ↦ decide (score' b.1 ≤ score' a.1))
    fun a ha b hb ↦ decide_eq_decide.mpr (h b.1 (hmem b hb) a.1 (hmem a ha))
  rw [List.map_id, List.map_id] at hsort
  rw [bestFirst, bestFirst, hsort]

/-- An element comes before those that are worse, and before those behind it that are as good. -/
theorem pair_sublist_bestFirst {i j : ℕ} {a b : α} (ha : xs[i]? = some a) (hb : xs[j]? = some b)
    (h : score b < score a ∨ score b = score a ∧ i < j) : [i, j].Sublist (bestFirst score xs) := by
  have hposition : xs.zipIdx.Pairwise fun p q ↦ p.2 < q.2 := by
    rw [← List.pairwise_map (f := Prod.snd) (R := (· < ·)), List.zipIdx_map_snd,
      ← List.range_eq_range']
    exact List.pairwise_lt_range
  have htrans : ∀ p q r : α × ℕ, decide (score q.1 ≤ score p.1) → decide (score r.1 ≤ score q.1) →
      decide (score r.1 ≤ score p.1) := by
    intro p q r hpq hqr
    rw [decide_eq_true_iff] at hpq hqr ⊢
    exact hqr.trans hpq
  have htotal : ∀ p q : α × ℕ,
      (decide (score q.1 ≤ score p.1) || decide (score p.1 ≤ score q.1)) = true := by
    intro p q
    rw [Bool.or_eq_true, decide_eq_true_iff, decide_eq_true_iff]
    exact le_total _ _
  have hsorted := pairwise_mergeSort_of_pairwise htrans htotal hposition
  have hmem : ∀ {k : ℕ} {c : α}, xs[k]? = some c →
      (c, k) ∈ xs.zipIdx.mergeSort fun p q ↦ decide (score q.1 ≤ score p.1) :=
    fun hc ↦ List.mem_mergeSort.mpr (List.mem_zipIdx_iff_getElem?.mpr hc)
  have hne : (a, i) ≠ (b, j) := by
    intro heq
    obtain ⟨rfl, rfl⟩ := Prod.mk.inj heq
    exact h.elim (lt_irrefl _) fun h ↦ lt_irrefl _ h.2
  refine (pair_sublist_of_pairwise hsorted (hmem ha) (hmem hb) hne ?_).map Prod.snd
  rintro ⟨hba, htie⟩
  rw [decide_eq_true_iff] at hba
  rcases h with hlt | ⟨heq, hij⟩
  · exact absurd hba (not_le.mpr hlt)
  · exact lt_asymm hij (htie (decide_eq_true heq.le))

end BestFirst

/-! ## Ranking -/

theorem rank_map_eq {w : Weights ℚ} {candidates : List (ℚ × ℚ)} {score : ℚ × ℚ → ℚ}
    (h : combine w (candidates.map Prod.fst) (candidates.map Prod.snd)
      = .ok (candidates.map score)) :
    rank w (candidates.map Prod.fst) (candidates.map Prod.snd) = .ok (bestFirst score candidates) := by
  cases candidates with
  | nil => exact congrArg Except.ok (bestFirst_perm score []).eq_nil.symm
  | cons c candidates =>
    rw [List.map_cons (f := Prod.snd), rank_cons h, ← order_map_eq, List.length_cons, List.length_map,
      List.length_cons]

/-- **Ranking respects dominance.** In exact arithmetic and with weights that are not negative, all
candidates are ranked, and

* a candidate that is nowhere worse than another, and better in a score whose weight is positive,
  comes before it;
* candidates whose weighted sums are equal keep their order;
* if all have the same relevance and similarity counts, the result is the stable sort by similarity,
  best first. -/
theorem rank_of_dominance (w : Weights ℚ) (hvector : 0 ≤ w.vector) (hrelevance : 0 ≤ w.relevance)
    (candidates : List (ℚ × ℚ)) :
    ∃ positions sums,
      rank w (candidates.map Prod.fst) (candidates.map Prod.snd) = .ok positions ∧
      combine w (candidates.map Prod.fst) (candidates.map Prod.snd) = .ok sums ∧
      positions.Perm (List.range candidates.length) ∧ sums.length = candidates.length ∧
      (∀ i j a b, candidates[i]? = some a → candidates[j]? = some b → b.1 ≤ a.1 → b.2 ≤ a.2 →
        b.1 < a.1 ∧ 0 < w.vector ∨ b.2 < a.2 ∧ 0 < w.relevance → [i, j].Sublist positions) ∧
      (∀ i j x, i < j → sums[i]? = some x → sums[j]? = some x → [i, j].Sublist positions) ∧
      ∀ y, (∀ c ∈ candidates, c.2 = y) → 0 < w.vector →
        positions = bestFirst Prod.fst candidates := by
  obtain ⟨f, g, hsums, hf, hg⟩ := exists_combine_map w candidates
  refine ⟨_, _, rank_map_eq hsums, hsums, bestFirst_perm _ _, List.length_map _, ?_, ?_, ?_⟩
  · intro i j a b ha hb hsimilarity hscore hbetter
    have ha' := List.mem_of_getElem? ha
    have hb' := List.mem_of_getElem? hb
    have hfa := List.mem_map_of_mem (f := Prod.fst) ha'
    have hfb := List.mem_map_of_mem (f := Prod.fst) hb'
    have hga := List.mem_map_of_mem (f := Prod.snd) ha'
    have hgb := List.mem_map_of_mem (f := Prod.snd) hb'
    have hfle : f b.1 * w.vector ≤ f a.1 * w.vector :=
      mul_le_mul_of_nonneg_right ((hf.le_iff_le hfb hfa).mpr hsimilarity) hvector
    have hgle : g b.2 * w.relevance ≤ g a.2 * w.relevance :=
      mul_le_mul_of_nonneg_right ((hg.le_iff_le hgb hga).mpr hscore) hrelevance
    refine pair_sublist_bestFirst ha hb (Or.inl ?_)
    rcases hbetter with ⟨hlt, hpos⟩ | ⟨hlt, hpos⟩
    · exact add_lt_add_of_lt_of_le (mul_lt_mul_of_pos_right (hf hfb hfa hlt) hpos) hgle
    · exact add_lt_add_of_le_of_lt hfle (mul_lt_mul_of_pos_right (hg hgb hga hlt) hpos)
  · intro i j x hij hi hj
    rw [List.getElem?_map, Option.map_eq_some_iff] at hi hj
    obtain ⟨a, ha, rfl⟩ := hi
    obtain ⟨b, hb, hsum⟩ := hj
    exact pair_sublist_bestFirst ha hb (Or.inr ⟨hsum, hij⟩)
  · intro y hflat hpos
    refine bestFirst_congr fun a ha b hb ↦ ?_
    rw [hflat a ha, hflat b hb, add_le_add_iff_right, mul_le_mul_iff_left₀ hpos,
      hf.le_iff_le (List.mem_map_of_mem ha) (List.mem_map_of_mem hb)]

/-- The second and the third candidate are as good as each other and better than the first one. -/
theorem rank_of_dominance_three : ∃ positions,
    rank ⟨1 / 2, 1 / 2⟩ [(1 / 4 : ℚ), 3 / 4, 3 / 4] [0, 2, 2] = .ok positions ∧
      [1, 0].Sublist positions ∧ [1, 2].Sublist positions := by
  obtain ⟨positions, sums, hrank, hsums, -, -, hbetter, hequal, -⟩ := rank_of_dominance
    ⟨1 / 2, 1 / 2⟩ (by decide +kernel) (by decide +kernel) [(1 / 4, 0), (3 / 4, 2), (3 / 4, 2)]
  have hvalues : (combine ⟨1 / 2, 1 / 2⟩ [(1 / 4 : ℚ), 3 / 4, 3 / 4] [0, 2, 2]).toOption
      = some [0, 1, 1] := by
    decide +kernel
  obtain rfl := Option.some.inj ((congrArg Except.toOption hsums).symm.trans hvalues)
  refine ⟨positions, hrank, hbetter 1 0 _ _ rfl rfl ?_ ?_ (Or.inl ⟨?_, ?_⟩),
    hequal 1 2 1 (by decide) rfl rfl⟩
  · decide +kernel
  · decide +kernel
  · decide +kernel
  · decide +kernel

end CodeAtlas.Search
