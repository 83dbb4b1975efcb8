import CodeAtlas.Proofs.Program.Reaching
import CodeAtlas.Proofs.Search.Defined
import CodeAtlas.Search.FunctionSearch

/-!
# What a search returns

A search puts what the record store found into another order and nothing more. Whatever the scores of
the hits, their summaries, the query and the weights are, every hit is in the results once, with its
own fields and score, and its rank is its place (`search_run_eq_ok`). The order is looked up position
by position, so this comes down to the order being a permutation of all positions. How documents are
scored does not matter for that, as long as each of them gets one score.

A store that finds hits always gets them ranked: no step in between fails, and none of the numbers
that the order depends on is a quotient by zero.
-/

namespace CodeAtlas.Search

open Checked (of)

variable {hits : List Hit} {order : List Nat}

/-! ## Looking hits up -/

/-- A hit as a search returns it. -/
def resultOf (rank : Nat) (h : Hit) : RankedFunction where
  id := h.record.id
  name := h.record.name
  path := h.record.path
  score := h.score
  rank
  summary := h.record.summary

/-- The hits in the given order. -/
def inOrder (hits : List Hit) (order : List Nat) : List Hit := order.filterMap (hits[·]?)

theorem inOrder_range (hits : List Hit) : inOrder hits (List.range hits.length) = hits := by
  induction hits with
  | nil => rfl
  | cons h hits ih =>
    rw [inOrder, List.length_cons, List.range_succ_eq_map, List.filterMap_cons, List.filterMap_map]
    exact congrArg (h :: ·) ih

theorem inOrder_perm (h : order.Perm (List.range hits.length)) : (inOrder hits order).Perm hits := by
  have hperm := h.filterMap (hits[·]?)
  rwa [← inOrder, ← inOrder, inOrder_range] at hperm

/-- The ranks go on by one from hit to hit. -/
theorem filterMap_rankedAt (h : ∀ i ∈ order, i < hits.length) (first : Nat) :
    (order.zip (List.range' first order.length)).filterMap (rankedAt hits)
      = (inOrder hits order).mapIdx fun i ↦ resultOf (first + i) := by
  induction order generalizing first with
  | nil => rfl
  | cons j order ih =>
    obtain ⟨hj, horder⟩ := List.forall_mem_cons.mp h
    have hhit : hits[j]? = some hits[j] := List.getElem?_eq_getElem hj
    have hrest : (fun i ↦ resultOf (first + 1 + i)) = fun i ↦ resultOf (first + (i + 1)) :=
      funext fun i ↦ by rw [Nat.add_assoc, Nat.add_comm 1]
    have hranked : rankedAt hits (j, first) = some (resultOf first hits[j]) := by
      rw [rankedAt, hhit]
      rfl
    rw [List.length_cons, List.range'_succ, List.zip_cons_cons, List.filterMap_cons_some hranked,
      ih horder, hrest, inOrder, inOrder, List.filterMap_cons_some hhit, List.mapIdx_cons]
    rfl

theorem ranked_eq (h : order.Perm (List.range hits.length)) :
    ranked hits order = (inOrder hits order).mapIdx fun i ↦ resultOf (i + 1) := by
  have hlt : ∀ i ∈ order, i < hits.length := fun i hi ↦ List.mem_range.mp (h.mem_iff.mp hi)
  have hrank : (fun i ↦ resultOf (1 + i)) = fun i ↦ resultOf (i + 1) :=
    funext fun i ↦ by rw [Nat.add_comm]
  rw [ranked, filterMap_rankedAt hlt, hrank]

/-! ## The order -/

/-- **Hits are always put in order**, and there is nothing to do for fewer than two of them. -/
theorem exists_hitOrder {scorer : Scorer}
    (hscorer : ∀ query documents, (scorer query documents).length = documents.length)
    (rules : SearchRules) (query : String) (hits : List Hit) :
    ∃ order, hitOrder scorer rules query hits = .ok order ∧ order.Perm (List.range hits.length) ∧
      (rules.rerank = false ∨ hits.length < 2 → order = List.range hits.length) := by
  rw [hitOrder]
  by_cases hrerank : rules.rerank && 1 < hits.length
  · rw [if_pos hrerank]
    obtain ⟨hon, hmany⟩ := Bool.and_eq_true_iff.mp hrerank
    have hlength : (hits.map fun h ↦ h.score.toFloat).length
        = (scorer query (hits.map fun h ↦ h.record.summary)).length := by
      rw [hscorer, List.length_map, List.length_map]
    obtain ⟨order, horder, hperm⟩ := exists_rank_perm rules.weights hlength
    rw [hscorer, List.length_map] at hperm
    refine ⟨order, horder, hperm, ?_⟩
    rintro (hoff | hfew)
    · exact absurd (hon.symm.trans hoff) Bool.noConfusion
    · exact absurd (of_decide_eq_true hmany) (by omega)
  · rw [if_neg hrerank]
    exact ⟨_, rfl, List.Perm.refl _, fun _ ↦ rfl⟩

/-- Everything that the order of hits is computed from is defined: there is neither a quotient by zero
nor a logarithm of what is not positive. The weights of the tokens are among it if there are any
tokens. -/
structure OrderDefined (rules : SearchRules) (query : String) (hits : List Hit) : Prop where
  index : ∀ h ∈ hits, tokens h.record.summary ≠ [] →
    (Index.ofDocuments okapi (hits.map fun h ↦ tokens h.record.summary) : Index (Checked Float))
      = (Index.ofDocuments okapi (hits.map fun h ↦ tokens h.record.summary)).checked
  sums : ∃ sums : List Float,
    combine rules.weights (hits.map fun h ↦ h.score.toFloat)
        (relevance query (hits.map fun h ↦ h.record.summary)) = .ok sums ∧
      combine rules.weights.checked (hits.map fun h ↦ of h.score.toFloat)
        (relevanceScores query (hits.map fun h ↦ h.record.summary)) = .ok (sums.map of)

theorem orderDefined (rules : SearchRules) (query : String) (hlt : hits.length < 2 ^ 1000) :
    OrderDefined rules query hits where
  index h hmem hne := ofDocuments_checked (List.mem_map_of_mem hmem) hne
  sums := by
    have hlength : (hits.map fun h ↦ h.score.toFloat).length
        = (hits.map fun h ↦ h.record.summary).length := by
      rw [List.length_map, List.length_map]
    obtain ⟨sums, hsums, hchecked⟩ := combine_checked rules.weights query hlength
      (by rwa [List.length_map])
    rw [List.map_map] at hchecked
    exact ⟨sums, hsums, hchecked⟩

/-! ## Searching -/

variable {σ : Type} {respond : Responder σ} {rules : SearchRules} {query : String}
  {asked : Option Int} {s t u : σ} {embedding : List Number}

theorem run_searchBy {scorer : Scorer} (hembed : respond (.embed query) s = (.ok embedding, t))
    (hnearest : respond (.nearest embedding (rules.limit asked)) t = (.ok hits, u))
    (horder : hitOrder scorer rules query hits = .ok order) :
    (searchBy scorer rules query asked).run respond s = (.ok (ranked hits order), u) := by
  rw [searchBy, ((Program.reaches_request hembed).bind _).run]
  refine ((Program.reaches_request hnearest).bind _).run.trans ?_
  show ((Program.ofExcept (hitOrder scorer rules query hits)) >>= _).run respond u = _
  rw [horder]
  rfl

/-- What the store found comes back, whichever scorer there is. -/
theorem exists_found_of_searchBy {scorer : Scorer}
    (hscorer : ∀ query documents, (scorer query documents).length = documents.length)
    (hembed : respond (.embed query) s = (.ok embedding, t))
    (hnearest : respond (.nearest embedding (rules.limit asked)) t = (.ok hits, u)) :
    ∃ found : List Hit,
      (searchBy scorer rules query asked).run respond s
        = (.ok (found.mapIdx fun i ↦ resultOf (i + 1)), u) ∧
      found.Perm hits ∧ (rules.rerank = false ∨ hits.length < 2 → found = hits) := by
  obtain ⟨order, horder, hperm, hstore⟩ := exists_hitOrder hscorer rules query hits
  refine ⟨inOrder hits order, ?_, inOrder_perm hperm, fun h ↦ ?_⟩
  · rw [run_searchBy hembed hnearest horder, ranked_eq hperm]
  · rw [hstore h, inOrder_range]

/-- **A search returns what the record store found**, each hit once with its own fields and its own
score, ranked from one in the order of the list. Without reranking, and with fewer than two hits, that is
the order of the store. A search that gets an embedding and hits does not fail, whatever the
summaries, the query, the scores and the weights are; that is so for any scores that documents get by
their tokens, and for those that they do get. Nothing undefined is computed for the latter. Only this
last needs a bound, which no list in memory comes near: over too many hits the average length would
be rounded to zero. -/
theorem search_run_eq_ok (hembed : respond (.embed query) s = (.ok embedding, t))
    (hnearest : respond (.nearest embedding (rules.limit asked)) t = (.ok hits, u)) :
    (∀ score : List String → List (List String) → List Float,
      (∀ query documents, (score query documents).length = documents.length) →
      ∃ found : List Hit,
        (searchBy (relevanceBy score) rules query asked).run respond s
          = (.ok (found.mapIdx fun i ↦ resultOf (i + 1)), u) ∧
        found.Perm hits ∧ (rules.rerank = false ∨ hits.length < 2 → found = hits)) ∧
    (∃ found : List Hit,
      (search rules query asked).run respond s
        = (.ok (found.mapIdx fun i ↦ resultOf (i + 1)), u) ∧
      found.Perm hits ∧ (rules.rerank = false ∨ hits.length < 2 → found = hits)) ∧
    (hits.length < 2 ^ 1000 → OrderDefined rules query hits) := by
  refine ⟨fun score hscore ↦ ?_, ?_, orderDefined rules query⟩
  · exact exists_found_of_searchBy (length_relevanceBy hscore) hembed hnearest
  · exact exists_found_of_searchBy length_relevance hembed hnearest

/-- Surroundings in which these hits are found and nothing else can be done. -/
def finding (hits : List Hit) : Responder Unit
  | .embed _, _ => (.ok [], ())
  | .nearest .., _ => (.ok hits, ())
  | _, _ => (.error (.mismatch (.badValue "")), ())

/-- A record without a summary, which is as similar as every other one. -/
def silentHit (id : String) : Hit := ⟨⟨id, id, "", "", none, none, 1, 1⟩, .whole 1⟩

/-- With equal scores, no summaries and no query there is nothing to go by. -/
theorem search_run_eq_ok_silent :
    ∃ found : List Hit,
      (search ⟨10, true, ⟨0.7, 0.3⟩⟩ "" none).run (finding [silentHit "f", silentHit "g"]) ()
        = (.ok (found.mapIdx fun i ↦ resultOf (i + 1)), ()) ∧
      found.Perm [silentHit "f", silentHit "g"] ∧
      OrderDefined ⟨10, true, ⟨0.7, 0.3⟩⟩ "" [silentHit "f", silentHit "g"] := by
  have hembed : finding [silentHit "f", silentHit "g"] (.embed "") () = (.ok [], ()) := rfl
  have hnearest : finding [silentHit "f", silentHit "g"]
      (.nearest [] (SearchRules.limit ⟨10, true, ⟨0.7, 0.3⟩⟩ none)) ()
        = (.ok [silentHit "f", silentHit "g"], ()) := rfl
  obtain ⟨-, ⟨found, hrun, hperm, -⟩, hdefined⟩ := search_run_eq_ok hembed hnearest
  have hlt : 2 < 2 ^ 1000 := lt_self_pow₀ one_lt_two (by decide)
  exact ⟨found, hrun, hperm, hdefined hlt⟩

end CodeAtlas.Search
