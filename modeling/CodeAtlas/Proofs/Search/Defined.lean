import CodeAtlas.Proofs.Float.Nonzero
import CodeAtlas.Proofs.Search.Ordering
import CodeAtlas.Search.Relevance
import Mathlib.Data.List.Basic

/-!
# Scores are defined

A float divided by zero is a float, so whether that happens does not show in the results. It shows
in checked numbers: there a quotient by zero is undefined, so is the logarithm of what is not
positive, and so is everything that is computed from it. Scores are defined for any kind of number,
and what has to be shown is that computing them with checked floats gives the floats that are computed
without checking.

There are few divisors. Scores are brought to a common range by their spread, which is not zero as
they are not all equal, and is not rounded to zero either. The weighting of documents divides by the
number of documents, by the number of tokens, by the average length and by a sum that is at least
three eighths; it is used only if there is a token in some document.
-/

namespace CodeAtlas.Search

open Binary64 (Nonneg Nonzero Positive beq_zero_eq_false nonneg_ofNat nonzero_ofNat nonzero_sub
  nonzero_ofNat_div_ofNat positive_ofNat_add_half zero_lt_of_positive)

/-! ## Checked numbers -/

/-- A number, unless it comes from a division by zero or a logarithm that does not exist. -/
inductive Checked (K : Type) where
  | of (x : K)
  | undefined

namespace Checked

variable {K : Type}

def map₂ (f : K → K → K) : Checked K → Checked K → Checked K
  | of x, of y => of (f x y)
  | _, _ => undefined

/-- The quotient, unless the divisor is zero. -/
def div [Div K] [BEq K] [OfScientific K] : Checked K → Checked K → Checked K
  | of x, of y => if y == 0.0 then undefined else of (x / y)
  | _, _ => undefined

/-- The logarithm of a positive number. -/
def log [Counting K] [LT K] [DecidableLT K] [OfScientific K] : Checked K → Checked K
  | of x => if 0.0 < x then of (Counting.log x) else undefined
  | undefined => undefined

def isLess [LT K] [DecidableLT K] : Checked K → Checked K → Bool
  | of x, of y => decide (x < y)
  | _, _ => false

def isEqual [BEq K] : Checked K → Checked K → Bool
  | of x, of y => x == y
  | _, _ => false

instance [Add K] : Add (Checked K) := ⟨map₂ (· + ·)⟩

instance [Sub K] : Sub (Checked K) := ⟨map₂ (· - ·)⟩

instance [Mul K] : Mul (Checked K) := ⟨map₂ (· * ·)⟩

instance [Div K] [BEq K] [OfScientific K] : Div (Checked K) := ⟨div⟩

instance [LT K] [DecidableLT K] : LT (Checked K) := ⟨fun x y ↦ x.isLess y⟩

instance [LT K] [DecidableLT K] : DecidableLT (Checked K) :=
  fun x y ↦ inferInstanceAs (Decidable (x.isLess y = true))

instance [BEq K] : BEq (Checked K) := ⟨isEqual⟩

instance [OfScientific K] : OfScientific (Checked K) :=
  ⟨fun m negative e ↦ of (OfScientific.ofScientific m negative e)⟩

instance [Counting K] [LT K] [DecidableLT K] [OfScientific K] : Counting (Checked K) :=
  ⟨fun n ↦ of (Counting.ofCount n), log⟩

theorem of_div [Div K] [BEq K] [OfScientific K] {y : K} (h : (y == 0.0) = false) (x : K) :
    of x / of y = of (x / y) :=
  if_neg (by rw [h]; exact Bool.false_ne_true)

theorem log_of [Counting K] [LT K] [DecidableLT K] [OfScientific K] {x : K} (h : 0.0 < x) :
    Counting.log (of x) = of (Counting.log x) :=
  if_pos h

theorem of_lt_of [LT K] [DecidableLT K] {x y : K} : of x < of y ↔ x < y := decide_eq_true_iff

end Checked

open Checked (of of_div log_of of_lt_of)

/-! ## The common range -/

section Range

variable {K : Type} [LT K] [DecidableLT K] [BEq K]

theorem leastFrom_map_of (x : K) (xs : List K) :
    leastFrom (of x) (xs.map of) = of (leastFrom x xs) := by
  rw [leastFrom, List.foldl_map]
  refine List.foldl_hom of fun m y ↦ ?_
  rw [decide_eq_decide.mpr of_lt_of, apply_ite of, apply_ite of]
  rfl

theorem greatestFrom_map_of (x : K) (xs : List K) :
    greatestFrom (of x) (xs.map of) = of (greatestFrom x xs) := by
  rw [greatestFrom, List.foldl_map]
  refine List.foldl_hom of fun m y ↦ ?_
  rw [decide_eq_decide.mpr of_lt_of, apply_ite of, apply_ite of]
  rfl

end Range

theorem normalize_map_of (xs : List Float) : normalize (xs.map of) = (normalize xs).map of := by
  cases xs with
  | nil => rfl
  | cons x xs =>
    rw [List.map_cons, normalize, normalize, leastFrom_map_of, greatestFrom_map_of, ← List.map_cons]
    by_cases hflat : greatestFrom x xs == leastFrom x xs
    · have hflat' : of (greatestFrom x xs) == of (leastFrom x xs) := hflat
      rw [if_pos hflat, if_pos hflat', List.map_map, List.map_map]
      rfl
    · have hflat' : ¬ (of (greatestFrom x xs) == of (leastFrom x xs)) := hflat
      rw [if_neg hflat, if_neg hflat', List.map_map, List.map_map]
      have hspread := beq_zero_eq_false (nonzero_sub (eq_false_of_ne_true hflat))
      exact List.map_congr_left fun y _ ↦ of_div hspread (y - leastFrom x xs)

/-- The weights as checked numbers. -/
def Weights.checked {K : Type} (w : Weights K) : Weights (Checked K) :=
  ⟨of w.vector, of w.relevance⟩

theorem combine_map_of (w : Weights Float) {similarity relevance sums : List Float}
    (h : similarity.length = relevance.length) (hsums : combine w similarity relevance = .ok sums) :
    combine w.checked (similarity.map of) (relevance.map of) = .ok (sums.map of) := by
  rw [combine_eq h] at hsums
  rw [combine_eq (by rw [List.length_map, List.length_map, h]), normalize_map_of, normalize_map_of,
    ← Except.ok.inj hsums, List.map_map, List.map_map, List.map_zipWith, List.zipWith_map,
    List.zipWith_map]
  rfl

/-! ## Counting tokens -/

theorem countToken_ne_nil (counts : List (String × Nat)) (token : String) :
    countToken counts token ≠ [] := by
  rw [countToken]
  split
  next p hfind =>
    rw [ne_eq, List.map_eq_nil_iff]
    exact List.ne_nil_of_mem (List.mem_of_find?_eq_some hfind)
  next => exact List.append_ne_nil_of_right_ne_nil _ (List.cons_ne_nil _ _)

theorem foldl_countToken_ne_nil {counts : List (String × Nat)} {document : List String}
    (h : counts ≠ [] ∨ document ≠ []) : document.foldl countToken counts ≠ [] := by
  induction document generalizing counts with
  | nil => exact h.resolve_right fun hne ↦ hne rfl
  | cons token document ih => exact ih (Or.inl (countToken_ne_nil counts token))

/-- If there is a token, then there are tokens that are counted. -/
theorem documentFrequencies_ne_nil {documents : List (List String)} {document : List String}
    (hmem : document ∈ documents) (hne : document ≠ []) : documentFrequencies documents ≠ [] := by
  have hdistinct : document.eraseDups ≠ [] := by
    cases document with
    | nil => exact absurd rfl hne
    | cons token document =>
      rw [List.eraseDups_cons]
      exact List.cons_ne_nil _ _
  suffices hfold : ∀ (documents : List (List String)) (counts : List (String × Nat)),
      counts ≠ [] ∨ document ∈ documents →
      documents.foldl (fun counts document ↦ document.eraseDups.foldl countToken counts) counts ≠ [] from
    hfold documents [] (Or.inr hmem)
  intro documents
  induction documents with
  | nil => exact fun counts h ↦ h.resolve_right List.not_mem_nil
  | cons d documents ih =>
    intro counts h
    refine ih _ ?_
    rcases h with hcounts | hmem
    · exact Or.inl (foldl_countToken_ne_nil (Or.inl hcounts))
    · rcases List.mem_cons.mp hmem with rfl | hmem
      · exact Or.inl (foldl_countToken_ne_nil (Or.inr hdistinct))
      · exact Or.inr hmem

theorem mem_countToken {counts : List (String × Nat)} {token : String} {p : String × Nat}
    (hmem : p ∈ countToken counts token) :
    p ∈ counts ∧ p.1 ≠ token ∨ p.1 = token ∧ (p.2 = 1 ∨ ∃ n, (token, n) ∈ counts ∧ p.2 = n + 1) := by
  rw [countToken] at hmem
  split at hmem
  next =>
    obtain ⟨q, hq, rfl⟩ := List.mem_map.mp hmem
    by_cases htoken : q.1 = token
    · rw [if_pos (beq_iff_eq.mpr htoken)]
      exact Or.inr ⟨htoken, Or.inr ⟨q.2, htoken ▸ hq, rfl⟩⟩
    · rw [if_neg (mt beq_iff_eq.mp htoken)]
      exact Or.inl ⟨hq, htoken⟩
  next hfind =>
    rcases List.mem_append.mp hmem with hmem | hmem
    · exact Or.inl ⟨hmem, mt beq_iff_eq.mpr (List.find?_eq_none.mp hfind p hmem)⟩
    · rw [List.mem_singleton.mp hmem]
      exact Or.inr ⟨rfl, Or.inl rfl⟩

theorem nodup_eraseDups (xs : List String) : xs.eraseDups.Nodup := by
  induction hn : xs.length using Nat.strong_induction_on generalizing xs with
  | _ n ih =>
    cases xs with
    | nil => exact List.nodup_nil
    | cons x xs =>
      rw [List.eraseDups_cons, List.nodup_cons]
      refine ⟨fun hmem ↦ ?_, ih _ ?_ _ rfl⟩
      · have hne := (List.mem_filter.mp (List.mem_eraseDups.mp hmem)).2
        rw [beq_self_eq_true] at hne
        exact Bool.false_ne_true hne
      · rw [← hn]
        exact Nat.lt_succ_of_le (List.length_filter_le _ _)

/-- Counting the tokens of a document once each adds at most one to what is counted. -/
theorem foldl_countToken_le {counts : List (String × Nat)} {distinct : List String} {n : Nat}
    (hdistinct : distinct.Nodup)
    (h : ∀ p ∈ counts, p.2 ≤ n + 1 ∧ (p.1 ∈ distinct → p.2 ≤ n)) :
    ∀ p ∈ distinct.foldl countToken counts, p.2 ≤ n + 1 := by
  induction distinct generalizing counts with
  | nil => exact fun p hp ↦ (h p hp).1
  | cons token distinct ih =>
    obtain ⟨hnot, hdistinct⟩ := List.nodup_cons.mp hdistinct
    refine ih hdistinct fun p hp ↦ ?_
    rcases mem_countToken hp with ⟨hp, -⟩ | ⟨htoken, hone | ⟨k, hk, hone⟩⟩
    · exact ⟨(h p hp).1, fun hmem ↦ (h p hp).2 (List.mem_cons_of_mem _ hmem)⟩
    · exact ⟨by omega, fun hmem ↦ absurd (htoken ▸ hmem) hnot⟩
    · have hle := (h _ hk).2 List.mem_cons_self
      exact ⟨by omega, fun hmem ↦ absurd (htoken ▸ hmem) hnot⟩

/-- No more documents have a token than there are documents. -/
theorem le_length_of_mem_documentFrequencies {documents : List (List String)} {p : String × Nat}
    (hp : p ∈ documentFrequencies documents) : p.2 ≤ documents.length := by
  suffices hfold : ∀ (documents : List (List String)) (counts : List (String × Nat)) (n : Nat),
      (∀ p ∈ counts, p.2 ≤ n) →
      ∀ p ∈ documents.foldl (fun counts document ↦ document.eraseDups.foldl countToken counts) counts,
        p.2 ≤ n + documents.length by
    have hle := hfold documents [] 0 (fun p hp ↦ absurd hp List.not_mem_nil) p hp
    omega
  intro documents
  induction documents with
  | nil => exact fun counts n h ↦ h
  | cons document documents ih =>
    intro counts n h
    have hstep := foldl_countToken_le (nodup_eraseDups document)
      fun p hp ↦ ⟨(h p hp).trans (Nat.le_succ n), fun _ ↦ h p hp⟩
    have hrest := ih _ (n + 1) hstep
    rw [List.length_cons, Nat.add_comm documents.length, ← Nat.add_assoc]
    exact hrest

theorem totalLength_ne_zero {documents : List (List String)} {document : List String}
    (hmem : document ∈ documents) (hne : document ≠ []) : totalLength documents ≠ 0 := by
  have hsum : totalLength documents = (documents.map List.length).sum := by
    rw [totalLength, List.sum_eq_foldl, List.foldl_map]
  rw [hsum]
  intro hzero
  exact hne (List.eq_nil_of_length_eq_zero
    (List.sum_eq_zero_iff_forall_eq_nat.mp hzero _ (List.mem_map_of_mem hmem)))

/-! ## Relevance -/

theorem length_relevanceBy {score : List String → List (List String) → List Float}
    (hscore : ∀ query documents, (score query documents).length = documents.length) (query : String)
    (documents : List String) : (relevanceBy score query documents).length = documents.length := by
  rw [relevanceBy]
  split
  · exact List.length_map _
  · rw [hscore, List.length_map]

theorem length_okapiScores (o : Okapi Float) (query : List String) (documents : List (List String)) :
    (okapiScores o query documents).length = documents.length := by
  rw [okapiScores, List.length_map]

@[simp] theorem length_relevance (query : String) (documents : List String) :
    (relevance query documents).length = documents.length :=
  length_relevanceBy (length_okapiScores okapi) query documents

/-- What is known of documents, as checked numbers. -/
def Index.checked {K : Type} (index : Index K) : Index (Checked K) where
  weights := index.weights.map fun p ↦ (p.1, of p.2)
  common := of index.common
  averageLength := of index.averageLength

theorem rarity_checked {count frequency : Nat} (h : frequency ≤ count) :
    (rarity count frequency : Checked Float) = of (rarity count frequency) := by
  have hothers := zero_lt_of_positive (positive_ofNat_add_half (count - frequency))
  have hthose := zero_lt_of_positive (positive_ofNat_add_half frequency)
  have hsub : ((count - frequency : Nat) : Int) = count - frequency := Int.ofNat_sub h
  have hothers' : 0.0 < (Counting.ofCount (count - frequency : Int) + 0.5 : Float) := hsub ▸ hothers
  rw [rarity, rarity]
  exact congrArg₂ (· - ·) (log_of hothers') (log_of hthose)

theorem rarities_checked (documents : List (List String)) :
    (rarities documents : List (String × Checked Float))
      = (rarities documents).map fun p ↦ (p.1, of p.2) := by
  rw [rarities, rarities, List.map_map]
  refine List.map_congr_left fun p hp ↦ ?_
  exact congrArg _ (rarity_checked (le_length_of_mem_documentFrequencies hp))

/-- **Documents with a token in them can be weighed**: neither an average nor a logarithm that their
weights are made of is undefined. -/
theorem ofDocuments_checked {documents : List (List String)} {document : List String}
    (hmem : document ∈ documents) (hne : document ≠ []) :
    (Index.ofDocuments okapi documents : Index (Checked Float))
      = (Index.ofDocuments okapi documents).checked := by
  have hcount : documents.length ≠ 0 := (List.length_pos_of_mem hmem).ne'
  have htokens : (rarities documents : List (String × Float)).length ≠ 0 := by
    rw [rarities, List.length_map]
    exact (List.length_pos_iff.mpr (documentFrequencies_ne_nil hmem hne)).ne'
  have htotal : (rarities documents : List (String × Checked Float)).foldl (fun sum p ↦ sum + p.2) 0.0
      = of ((rarities documents).foldl (fun sum p ↦ sum + p.2) 0.0) := by
    rw [rarities_checked, List.foldl_map]
    exact List.foldl_hom of fun _ _ ↦ rfl
  obtain ⟨sum, hsum⟩ : ∃ sum : Float, (rarities documents).foldl (fun sum p ↦ sum + p.2) 0.0 = sum :=
    ⟨_, rfl⟩
  have hcommon : (okapi : Okapi (Checked Float)).commonShare
        * (of sum / Counting.ofCount (rarities documents : List (String × Float)).length)
      = of (okapi.commonShare
        * (sum / Counting.ofCount (rarities documents : List (String × Float)).length)) :=
    congrArg (of okapi.commonShare * ·) (of_div (beq_zero_eq_false (nonzero_ofNat htokens)) sum)
  have haverage : (Counting.ofCount (totalLength documents) / Counting.ofCount documents.length :
      Checked Float)
        = of (Counting.ofCount (totalLength documents) / Counting.ofCount documents.length) :=
    of_div (beq_zero_eq_false (nonzero_ofNat hcount)) _
  rw [Index.ofDocuments, Index.ofDocuments, Index.checked]
  dsimp only
  rw [htotal, hsum, haverage, rarities_checked, List.length_map, hcommon, List.map_map, List.map_map]
  congr 1
  refine List.map_congr_left fun p _ ↦ congrArg (Prod.mk p.1) ?_
  rw [apply_ite of]
  exact if_congr of_lt_of rfl rfl

theorem weight_checked (index : Index Float) (token : String) :
    index.checked.weight token = of (index.weight token) := by
  rw [Index.weight, Index.weight, Index.checked]
  dsimp only
  rw [List.find?_map]
  have hkey : ((fun p : String × Checked Float ↦ p.1 == token) ∘ fun p ↦ (p.1, of p.2))
      = fun p : String × Float ↦ p.1 == token := rfl
  rw [hkey]
  cases index.weights.find? fun p ↦ p.1 == token with
  | none => rfl
  | some p => rfl

/-- The sum that a token's weight is divided by is not zero, however long documents are. -/
theorem nonzero_discount {average : Float} (h : Nonneg average) (frequency length : Nat) :
    Nonzero (Float.ofNat frequency
      + 1.5 * (1.0 - 0.75 + 0.75 * Float.ofNat length / average)) := by
  have hshare : Nonneg (1.0 - 0.75) ∧ Nonzero (1.0 - 0.75) := ⟨by rfl, id⟩
  have hlengths : Nonneg (0.75 * Float.ofNat length / average) :=
    (Binary64.Nonneg.mul (by rfl) (nonneg_ofNat length)).div h
  have hdiscount := hshare.1.add hlengths (Or.inl hshare.2)
  have hsaturation : (1.5 : Float).toModel.unpack
      = .finite .positive (3 * 2 ^ 51) (-52) (by decide) := by rfl
  have hproduct : Nonzero (1.5 * (1.0 - 0.75 + 0.75 * Float.ofNat length / average)) :=
    Nonzero.mul hsaturation (by decide) hdiscount.2
  exact ((nonneg_ofNat frequency).add (Binary64.Nonneg.mul (by rfl) hdiscount.1) (Or.inr hproduct)).2

theorem contribution_checked {average : Float} (hnonneg : Nonneg average) (hne : Nonzero average)
    (weight : Float) (token : String) (document : List String) :
    contribution okapi (of average) (of weight) token document
      = of (contribution okapi average weight token document) := by
  have hlengths : of (0.75 * Float.ofNat document.length) / of average
      = of (0.75 * Float.ofNat document.length / average) :=
    of_div (beq_zero_eq_false hne) _
  have hdiscount := of_div (beq_zero_eq_false
    (nonzero_discount hnonneg (occurrences token document) document.length))
    (Float.ofNat (occurrences token document) * (1.5 + 1.0))
  rw [contribution]
  refine congrArg (of weight * ·) (Eq.trans ?_ hdiscount)
  exact congrArg (fun x ↦ of (Float.ofNat (occurrences token document) * (1.5 + 1.0))
    / (of (Float.ofNat (occurrences token document)) + of 1.5 * (of (1.0 - 0.75) + x))) hlengths

theorem okapiScores_checked (query : List String) {documents : List (List String)}
    {document : List String} (hmem : document ∈ documents) (hne : document ≠ [])
    (hlt : documents.length < 2 ^ 1000) :
    (okapiScores okapi query documents : List (Checked Float))
      = (okapiScores okapi query documents).map of := by
  have hcount : documents.length ≠ 0 := (List.length_pos_of_mem hmem).ne'
  have hnonneg : Nonneg (Index.ofDocuments okapi documents : Index Float).averageLength :=
    (nonneg_ofNat (totalLength documents)).div (nonneg_ofNat documents.length)
  have haverage : Nonzero (Index.ofDocuments okapi documents : Index Float).averageLength :=
    nonzero_ofNat_div_ofNat (totalLength_ne_zero hmem hne) hcount hlt
  rw [okapiScores, okapiScores, ofDocuments_checked hmem hne, List.map_map]
  refine List.map_congr_left fun d _ ↦ List.foldl_hom of fun score token ↦ ?_
  rw [weight_checked]
  exact congrArg (of score + ·) (contribution_checked hnonneg haverage _ token d)

/-- **The relevance of documents is defined** for every query, also if nothing is in it or in the
documents. -/
theorem relevanceScores_checked (query : String) {documents : List String}
    (hlt : documents.length < 2 ^ 1000) :
    (relevanceScores query documents : List (Checked Float)) = (relevance query documents).map of := by
  rw [relevance, relevanceScores, relevanceScores, relevanceBy, relevanceBy]
  by_cases hempty : (tokens query).isEmpty || (documents.map tokens).all List.isEmpty
  · rw [if_pos hempty, if_pos hempty, List.map_map]
    rfl
  · rw [if_neg hempty, if_neg hempty]
    obtain ⟨-, hall⟩ := Bool.or_eq_false_iff.mp (eq_false_of_ne_true hempty)
    obtain ⟨document, hmem, hne⟩ := List.all_eq_false.mp hall
    refine okapiScores_checked (tokens query) hmem (mt List.isEmpty_iff.mpr hne) ?_
    rwa [List.length_map]

/-- **The sums that candidates are ordered by are defined**, whatever their scores, the documents and
the weights are. -/
theorem combine_checked (w : Weights Float) (query : String) {similarity : List Float}
    {documents : List String} (h : similarity.length = documents.length)
    (hlt : documents.length < 2 ^ 1000) :
    ∃ sums, combine w similarity (relevance query documents) = .ok sums ∧
      combine w.checked (similarity.map of) (relevanceScores query documents)
        = .ok (sums.map of) := by
  have hlength : similarity.length = (relevance query documents).length := by
    rw [length_relevance, h]
  obtain ⟨sums, hsums, -⟩ := exists_combine w hlength
  exact ⟨sums, hsums, relevanceScores_checked query hlt ▸ combine_map_of w hlength hsums⟩

end CodeAtlas.Search
