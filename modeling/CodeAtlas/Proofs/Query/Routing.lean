import CodeAtlas.Proofs.Program.Reaching
import CodeAtlas.Proofs.Query.Attempts
import CodeAtlas.Proofs.Query.Objects
import CodeAtlas.Query.Response

/-!
# Which store is asked

There are two stores that a query can be answered from. Which of them is asked depends on the reply
of a language model and on nothing else, and whatever the reply is, it is one of the two: the graph
if the object in the reply names it (`NamesGraph`), the function records in every other case. What
is searched for there is the summary in the reply if it has one, and the query if not (`Seeks`).

A reply is turned into a decision first (`decides_ofReply`), without any store being asked. From
there the answer is that of a plan or that of a search, and each of these asks one store only
(`asks_make`, `asks_search`).
-/

namespace CodeAtlas

/-- The store that a request goes to. The services, the queue and the log belong to none. -/
def Request.store? : Request → Option Route
  | .mergeNode .. | .mergeRelationship .. | .findRelationships .. | .deleteRelationship ..
  | .expandCalls .. | .graphStats | .flushGraph | .runQuery .. => some .graph
  | .findRecord .. | .hasRecord .. | .storeRecord .. | .nearest .. | .recordStats => some .vector
  | .complete .. | .embed .. | .offer .. | .takeItem | .settle .. | .queueStats | .note .. => none

namespace Reply

/-- The reply has an object with this value of a key. -/
def HasEntry (reply key : String) (value : Datum) : Prop :=
  ∃ span entries, IsObjectSpan reply.toList span ∧
    Json.read (String.ofList span) = .ok (.map entries) ∧ Props.get? key entries = some value

/-- The reply has a word for the graph as its decision. -/
def NamesGraph (reply : String) : Prop :=
  ∃ tag, HasEntry reply "decision" tag ∧
    Text.lowerCase (Text.trim tag.display) ∈ ["graph", "neo4j", "cypher"]

/-- The reply has a summary that is more than blanks. A value that counts as false is none. -/
def Summarizes (reply summary : String) : Prop :=
  ∃ value, HasEntry reply "summary" value ∧ value.truthy = true ∧ Text.trim value.display = summary ∧
    summary ≠ ""

/-- What is searched for after a reply. -/
inductive Seeks (query reply : String) : String → Prop
  | summary {summary : String} (h : Summarizes reply summary) : Seeks query reply summary
  | query (h : ∀ summary, ¬ Summarizes reply summary) : Seeks query reply query

variable {query reply sought key : String} {value : Datum} {entries : Props}

/-- There is something to search for if there is something in the query. -/
theorem Seeks.trim_ne_empty (h : Seeks query reply sought) (hquery : Text.trim query ≠ "") :
    Text.trim sought ≠ "" := by
  cases h with
  | summary h =>
    obtain ⟨value, -, -, rfl, hne⟩ := h
    exact fun heq ↦ hne ((Text.trim_eq_empty_iff _).mp heq)
  | query _ => exact hquery

theorem Seeks.eq_empty (h : Seeks query reply sought) (hsought : sought = "") : query = "" := by
  cases h with
  | summary h =>
    obtain ⟨value, -, -, -, hne⟩ := h
    exact absurd hsought hne
  | query _ => exact hsought

theorem hasEntry_iff (h : object? reply = .ok (some entries)) :
    HasEntry reply key value ↔ Props.get? key entries = some value := by
  constructor
  · rintro ⟨span, found, hspan, hread, hvalue⟩
    have hfound := object?_eq_some_iff.mpr ⟨span, hspan, hread⟩
    obtain rfl := Option.some.inj (Except.ok.inj (h.symm.trans hfound))
    exact hvalue
  · intro hvalue
    obtain ⟨span, hspan, hread⟩ := object?_eq_some_iff.mp h
    exact ⟨span, entries, hspan, hread, hvalue⟩

theorem not_hasEntry (h : object? reply = .ok none) : ¬ HasEntry reply key value := by
  rintro ⟨span, found, hspan, hread, -⟩
  have hfound := object?_eq_some_iff.mpr ⟨span, hspan, hread⟩
  exact absurd (h.symm.trans hfound) (by simp)

end Reply

/-! ## Decisions -/

namespace Decision

open Reply

variable {query reply : String} {entries : Props}

/-- A decision that a reply stands for. -/
structure Decides (query reply : String) (decision : Decision) : Prop where
  graph : decision.route = .graph ↔ NamesGraph reply
  vector : decision.route = .vector → ∃ sought, decision.searchText = some sought ∧
    Seeks query reply sought

theorem routeOf?_eq_graph_iff {tag : String} :
    routeOf? tag = some .graph ↔ tag ∈ ["graph", "neo4j", "cypher"] := by
  simp only [routeOf?, List.contains_iff_mem]
  constructor
  · intro h
    split at h
    · exact absurd h (by decide)
    · split at h
      · assumption
      · exact absurd h (by decide)
  · intro h
    -- No word stands for both routes.
    have hvector : tag ∉ ["vector", "sql", "semantic"] := by
      revert tag
      decide
    rw [if_neg hvector, if_pos h]

theorem namesGraph_iff (h : object? reply = .ok (some entries)) :
    NamesGraph reply ↔ routeOf? (tagOf entries) = some .graph := by
  rw [routeOf?_eq_graph_iff, NamesGraph, tagOf]
  simp only [hasEntry_iff h]
  cases Props.get? "decision" entries with
  | none =>
    constructor
    · rintro ⟨tag, hentry, -⟩
      exact absurd hentry (by simp)
    · exact fun hmem ↦ absurd hmem (by decide)
  | some tag =>
    constructor
    · rintro ⟨tag', hentry, hmem⟩
      obtain rfl := Option.some.inj hentry
      exact hmem
    · exact fun hmem ↦ ⟨tag, rfl, hmem⟩

theorem summarizes_iff (h : object? reply = .ok (some entries)) {summary : String} :
    Summarizes reply summary ↔ textOf "summary" entries = summary ∧ summary ≠ "" := by
  rw [Summarizes, textOf]
  simp only [hasEntry_iff h]
  cases Props.get? "summary" entries with
  | none =>
    constructor
    · rintro ⟨value, hentry, -⟩
      exact absurd hentry (by simp)
    · rintro ⟨rfl, hne⟩
      exact absurd rfl hne
  | some value =>
    constructor
    · rintro ⟨value', hentry, htruthy, htext, hne⟩
      obtain rfl := Option.some.inj hentry
      exact ⟨(if_pos htruthy).trans htext, hne⟩
    · rintro ⟨htext, hne⟩
      cases htruthy : value.truthy with
      | true => exact ⟨value, rfl, htruthy, (if_pos htruthy).symm.trans htext, hne⟩
      | false => exact absurd (htext.symm.trans (if_neg (by simp [htruthy]))) hne

theorem seeks_searchTextOf (h : object? reply = .ok (some entries)) (query : String) :
    Seeks query reply (searchTextOf query entries) := by
  rw [searchTextOf]
  split
  · rename_i hempty
    refine .query fun summary hsummary ↦ ?_
    obtain ⟨rfl, hne⟩ := (summarizes_iff h).mp hsummary
    exact hne (String.isEmpty_iff.mp hempty)
  · rename_i hfull
    exact .summary ((summarizes_iff h).mpr ⟨rfl, fun heq ↦ hfull (String.isEmpty_iff.mpr heq)⟩)

theorem decides_ofPayload (h : object? reply = .ok (some entries)) (query : String) :
    Decides query reply (ofPayload query entries).1 := by
  have hgraph := namesGraph_iff h
  have hseeks := seeks_searchTextOf h query
  rw [ofPayload]
  cases hroute : routeOf? (tagOf entries) with
  | none => exact ⟨by simp [hgraph, hroute], fun _ ↦ ⟨_, rfl, hseeks⟩⟩
  | some route =>
    cases route with
    | graph => exact ⟨by simp [hgraph, hroute], fun hvector ↦ absurd hvector (by simp)⟩
    | vector => exact ⟨by simp [hgraph, hroute], fun _ ↦ ⟨_, rfl, hseeks⟩⟩

theorem decides_fallback (h : object? reply = .ok none) (query : String) :
    Decides query reply (fallback query) := by
  constructor
  · constructor
    · exact fun hroute ↦ absurd hroute (by simp [fallback])
    · rintro ⟨tag, hentry, -⟩
      exact absurd hentry (not_hasEntry h)
  · refine fun _ ↦ ⟨query, rfl, .query ?_⟩
    rintro summary ⟨value, hentry, -⟩
    exact not_hasEntry h hentry

/-- **Every reply stands for a decision.** -/
theorem decides_ofReply (query : String) (h : WithinLimits reply) :
    ∃ decision remark, ofReply query reply = .ok (decision, remark) ∧
      Decides query reply decision := by
  obtain ⟨found, hfound⟩ := exists_object? h
  rw [ofReply, hfound]
  cases found with
  | none => exact ⟨_, _, rfl, decides_fallback hfound query⟩
  | some entries =>
    have hdecides := decides_ofPayload hfound query
    revert hdecides
    simp only
    generalize ofPayload query entries = made
    obtain ⟨decision, known⟩ := made
    intro hdecides
    cases known <;> exact ⟨_, _, rfl, hdecides⟩

end Decision

/-! ## Programs that ask one store -/

/-- The request goes to no store but this one. -/
def Request.Spares (store : Route) (r : Request) : Prop := ∀ other ∈ r.store?, other = store

open Program

variable {σ : Type} {respond : Responder σ} {store : Route} {r : Request}
  {R : (r : Request) → Except Fault r.Reply → Prop}

theorem spares_of_none (h : r.store? = none) : r.Spares store :=
  fun _ hother ↦ absurd (h.symm.trans hother) (by simp)

theorem spares_of_some (h : r.store? = some store) : r.Spares store :=
  fun _ hother ↦ (Option.some.inj (h.symm.trans hother)).symm

theorem asks_complete (prompt : String) :
    (Enrichment.complete prompt).Asks (Request.Spares store) R fun _ ↦ True :=
  (asks_request (spares_of_none rfl)).bind fun _ _ ↦ asks_pure trivial

theorem asks_warn (source text : String) :
    (warn source text).Asks (Request.Spares store) R fun _ ↦ True :=
  (asks_request (spares_of_none rfl)).mono fun _ _ ↦ trivial

theorem reaches_complete {prompt raw : String} {s t : σ}
    (h : respond (.complete prompt) s = (.ok raw, t)) :
    (Enrichment.complete prompt).Reaches respond s [.complete prompt]
      (pure (Reply.withoutReasoning raw)) t :=
  (reaches_request h).bind _

/-- What a program asks on the way to a point and from there. -/
theorem spares_of_reaches {α : Type} {p q : Program α} {s t : σ} {asked : List Request}
    (h : p.Reaches respond s asked q t) (hasked : ∀ r ∈ asked, r.store? = none)
    (hq : q.Asks (Request.Spares store) (fun _ _ ↦ True) fun _ ↦ True) :
    ∀ r ∈ p.trace respond s, r.Spares store := by
  rw [h.trace, List.forall_mem_append]
  exact ⟨fun r hr ↦ spares_of_none (hasked r hr), fun r hr ↦ hq.of_mem_trace hr⟩

namespace Plan

theorem asks_attemptsFrom (question : String) (most : Int) (left : Nat) (attempts : List Attempt)
    (error : Option String) : (attemptsFrom question most left attempts error).Asks
      (Request.Spares .graph) R fun _ ↦ True := by
  induction left generalizing attempts error with
  | zero => exact asks_fail
  | succ left ih =>
    have hgenerate : (generate question error).Asks (Request.Spares .graph) R fun _ ↦ True :=
      (asks_complete _).bind fun _ _ ↦ asks_pure trivial
    refine hgenerate.bind fun candidate _ ↦ ?_
    refine (asks_request (spares_of_some rfl)).attempt.bind fun outcome _ ↦ ?_
    cases outcome with
    | ok records => exact asks_pure trivial
    | error e =>
      cases e with
      | graphQuery message cause => exact (asks_warn _ _).bind fun _ _ ↦ ih _ _
      | _ => exact asks_fail

/-- A plan asks the graph only. -/
theorem asks_make (most : Int) (question : String) :
    (make most question).Asks (Request.Spares .graph) R fun _ ↦ True :=
  asks_attemptsFrom question most _ [] none

/-- A plan asks the graph, if it may make an attempt and gets a query for it. -/
theorem runQuery_mem_trace_make {most : Int} (hmost : 0 < most) {question text : String} {s t : σ}
    (h : respond (.complete (Prompt.cypher question none)) s = (.ok text, t)) :
    .runQuery (candidate text) ∈ (make most question).trace respond s := by
  obtain ⟨left, hleft⟩ := Nat.exists_eq_succ_of_ne_zero (by omega : most.toNat ≠ 0)
  have hgenerate : (generate question none).Reaches respond s
      [.complete (Prompt.cypher question none)] (pure (candidate text)) t :=
    (reaches_complete h).bind _
  rw [make, hleft, attemptsFrom, (hgenerate.bind _).trace]
  exact List.mem_append_right _ List.mem_cons_self

end Plan

namespace Search

/-- A search asks the function records only. -/
theorem asks_search (rules : SearchRules) (query : String) (limit : Option Int) :
    (search rules query limit).Asks (Request.Spares .vector) R fun _ ↦ True :=
  (asks_request (spares_of_none rfl)).bind fun _ _ ↦
    (asks_request (spares_of_some rfl)).bind fun _ _ ↦
      (asks_ofExcept fun _ _ ↦ trivial).bind fun _ _ ↦ asks_pure trivial

/-- A search asks the function records, if it gets an embedding to compare them with. -/
theorem nearest_mem_trace_search (rules : SearchRules) {query : String} (limit : Option Int)
    {embedding : List Number} {s t : σ} (h : respond (.embed query) s = (.ok embedding, t)) :
    .nearest embedding (rules.limit limit) ∈ (search rules query limit).trace respond s := by
  rw [search, searchBy, ((reaches_request h).bind _).trace]
  exact List.mem_append_right _ List.mem_cons_self

end Search

/-! ## Answering a query -/

open Reply (NamesGraph Seeks WithinLimits)

section Answering

variable {query raw : String} {s u : σ}
  (hnote : ∀ notice s, (respond (.note notice) s).1 = .ok ())
  (hreply : respond (.complete (Prompt.classification query)) s = (.ok raw, u))
  (hlimits : WithinLimits (Reply.withoutReasoning raw))

include hnote in
theorem reaches_warn (source text : String) : (warn source text).Reaches respond s
    [.note ⟨false, source, text⟩] (pure ()) (respond (.note ⟨false, source, text⟩) s).2 :=
  reaches_request (Prod.ext (hnote _ s) rfl)

include hnote hreply hlimits

/-- **A query that is replied to is classified**, and no store is asked for that. -/
theorem Decision.reaches_classify : ∃ decision asked t,
    (classify query).Reaches respond s asked (pure decision) t ∧
      (∀ r ∈ asked, r.store? = none) ∧ Decides query (Reply.withoutReasoning raw) decision := by
  obtain ⟨decision, remark, hdecision, hdecides⟩ := decides_ofReply query hlimits
  have hcomplete : (classify query).Reaches respond s
      [.complete (Prompt.classification query)] _ u := (reaches_complete hreply).attempt.bind _
  simp only [pure, attempt, bind, Program.bind, hdecision] at hcomplete
  cases remark with
  | none => exact ⟨decision, _, u, hcomplete, List.forall_mem_singleton.mpr rfl, hdecides⟩
  | some remark =>
    have hwarn := (reaches_warn (s := u) hnote classifierName remark).bind fun _ ↦ pure decision
    refine ⟨decision, _, _, hcomplete.trans hwarn, ?_, hdecides⟩
    exact List.forall_mem_cons.mpr ⟨rfl, List.forall_mem_singleton.mpr rfl⟩

end Answering

namespace Response

variable {rules : QueryRules} {query : String} {limit : Option Int} {decision : Decision}
  {asked : List Request} {s t : σ}
  (hclassify : (Decision.classify query).Reaches respond s asked (pure decision) t)

include hclassify

theorem reaches_find_graph (hroute : decision.route = .graph) :
    (find rules query limit).Reaches respond s asked
      ((⟨decision, .plan ·⟩) <$> Plan.make rules.maxAttempts query) t := by
  have hfind : (find rules query limit).Reaches respond s asked _ t := hclassify.bind _
  simp only [pure, bind, Program.bind, hroute] at hfind
  exact hfind

theorem reaches_find_vector (hsearch : rules.canSearch = true) (hroute : decision.route = .vector)
    {sought : String} (hsought : decision.searchText = some sought)
    (hquery : sought = "" → query = "") :
    (find rules query limit).Reaches respond s asked
      ((⟨decision, .functions ·⟩) <$> Search.search rules.search sought limit) t := by
  have htext : (if sought.isEmpty then query else sought) = sought := by
    split
    · rename_i hempty
      rw [String.isEmpty_iff.mp hempty, hquery (String.isEmpty_iff.mp hempty)]
    · rfl
  have hfind : (find rules query limit).Reaches respond s asked _ t := hclassify.bind _
  simp only [pure, bind, Program.bind, hroute, hsearch, hsought, htext, if_true] at hfind
  exact hfind

end Response

/-- **Whatever is replied, a query is classified and one store is asked**: the graph if the reply
names it, by a plan, and the function records otherwise, by a search for the summary in the reply or
for the query. No request goes to the other store, and one goes to this store unless the service
that has to be asked before it refuses. -/
theorem Response.find_asks_one_store {rules : QueryRules} (hsearch : rules.canSearch = true)
    (hnote : ∀ notice s, (respond (.note notice) s).1 = .ok ()) (query : String)
    (limit : Option Int) {raw : String} {s u : σ}
    (hreply : respond (.complete (Prompt.classification query)) s = (.ok raw, u))
    (hlimits : WithinLimits (Reply.withoutReasoning raw)) :
    ∃ (decision : Decision) (asked : List Request) (t : σ),
      (Decision.classify query).Reaches respond s asked (pure decision) t ∧
      (∀ r ∈ asked, r.store? = none) ∧
      (∀ r ∈ (find rules query limit).trace respond s, r.Spares decision.route) ∧
      (decision.route = .graph ↔ NamesGraph (Reply.withoutReasoning raw)) ∧
      (decision.route = .graph →
        (find rules query limit).Reaches respond s asked
          ((⟨decision, .plan ·⟩) <$> Plan.make rules.maxAttempts query) t ∧
        (0 < rules.maxAttempts → ∀ text v,
          respond (.complete (Prompt.cypher query none)) t = (.ok text, v) →
          .runQuery (Plan.candidate text) ∈ (find rules query limit).trace respond s)) ∧
      (decision.route = .vector → ∃ sought, Seeks query (Reply.withoutReasoning raw) sought ∧
        (Text.trim query ≠ "" → Text.trim sought ≠ "") ∧
        (find rules query limit).Reaches respond s asked
          ((⟨decision, .functions ·⟩) <$> Search.search rules.search sought limit) t ∧
        (∀ embedding v, respond (.embed sought) t = (.ok embedding, v) →
          .nearest embedding (rules.search.limit limit)
            ∈ (find rules query limit).trace respond s)) := by
  obtain ⟨decision, asked, t, hclassify, hasked, hdecides⟩ :=
    Decision.reaches_classify hnote hreply hlimits
  cases hroute : decision.route with
  | graph =>
    have hfind : (find rules query limit).Reaches respond s asked _ t :=
      reaches_find_graph hclassify hroute
    refine ⟨decision, asked, t, hclassify, hasked, ?_, hdecides.graph, fun _ ↦ ⟨hfind, ?_⟩,
      fun hvector ↦ absurd (hroute.symm.trans hvector) (by decide)⟩
    · rw [hroute]
      exact spares_of_reaches hfind hasked ((Plan.asks_make _ _).map fun _ _ ↦ trivial)
    · intro hmost text v htext
      rw [hfind.trace, trace_map]
      exact List.mem_append_right _ (Plan.runQuery_mem_trace_make hmost htext)
  | vector =>
    obtain ⟨sought, hsought, hseeks⟩ := hdecides.vector hroute
    have hfind : (find rules query limit).Reaches respond s asked _ t :=
      reaches_find_vector hclassify hsearch hroute hsought hseeks.eq_empty
    refine ⟨decision, asked, t, hclassify, hasked, ?_, hdecides.graph,
      fun hgraph ↦ absurd (hroute.symm.trans hgraph) (by decide),
      fun _ ↦ ⟨sought, hseeks, hseeks.trim_ne_empty, hfind, ?_⟩⟩
    · rw [hroute]
      exact spares_of_reaches hfind hasked ((Search.asks_search _ _ _).map fun _ _ ↦ trivial)
    · intro embedding v hembedding
      rw [hfind.trace, trace_map]
      exact List.mem_append_right _ (Search.nearest_mem_trace_search _ limit hembedding)

/-- A word with blanks and capitals names the graph, and where there is no object at all the query
is searched for. -/
theorem Response.find_asks_one_store_neo4j :
    let rules : QueryRules := ⟨⟨5, false, ⟨1, 0⟩⟩, 3, true, true⟩
    let script (reply : String) : Plan.Script := ⟨fun _ ↦ .ok reply, fun _ ↦ .ok []⟩
    .runQuery (Plan.candidate "\x7b\"decision\": \" Neo4j \"\x7d") ∈
        (find rules "Who calls run?" none).trace
          (script "\x7b\"decision\": \" Neo4j \"\x7d").respond [] ∧
      ∃ decision asked t,
        (find rules "parse dates" none).Reaches (script "No idea.").respond [] asked
          ((⟨decision, .functions ·⟩) <$> Search.search rules.search "parse dates" none) t := by
  intro rules script
  have hsearch : rules.canSearch = true := rfl
  have hnote : ∀ reply notice s, ((script reply).respond (.note notice) s).1 = .ok () :=
    fun _ _ _ ↦ rfl
  have hcomplete : ∀ reply prompt s,
      (script reply).respond (.complete prompt) s = (.ok reply, s ++ [.complete prompt]) :=
    fun _ _ _ ↦ rfl
  constructor
  · generalize hnamed : "\x7b\"decision\": \" Neo4j \"\x7d" = named
    have hreply : Reply.withoutReasoning named = named := by
      rw [← hnamed]
      exact (Reply.withoutReasoning_eq_trim (by decide)).trans (by decide)
    have hlimits : WithinLimits (Reply.withoutReasoning named) := by
      rw [hreply, ← hnamed]
      exact Reply.withinLimits_of_countP (by decide) (by decide)
    have hread : Json.read named = .ok (.map [("decision", .text " Neo4j ")]) := by
      have hwritten : named = Json.write .line (.map [("decision", .text " Neo4j ")]) := by
        rw [← hnamed]
        decide
      rw [hwritten, Json.read_write Json.isPlain_line, Json.Style.arranged_of_unsorted rfl]
      exact .map (by decide) (List.forall_mem_singleton.mpr (.text _))
    have hnames : NamesGraph (Reply.withoutReasoning named) := by
      have hspan : Reply.IsObjectSpan named.toList named.toList := by
        rw [← hnamed]
        exact Reply.isObjectSpan_of_objectSpan? (by decide)
      rw [hreply]
      refine ⟨.text " Neo4j ", ⟨named.toList, [("decision", .text " Neo4j ")], hspan, ?_, rfl⟩,
        by decide⟩
      rw [String.ofList_toList, hread]
    obtain ⟨decision, asked, t, -, -, -, hroute, hgraph, -⟩ := find_asks_one_store hsearch
      (hnote named) "Who calls run?" none (hcomplete named _ []) hlimits
    exact (hgraph (hroute.mpr hnames)).2 (by decide) named _ (hcomplete named _ t)
  · have hreply : Reply.withoutReasoning "No idea." = "No idea." :=
      (Reply.withoutReasoning_eq_trim (by decide)).trans (by decide)
    have hlimits : WithinLimits (Reply.withoutReasoning "No idea.") := by
      rw [hreply]
      exact Reply.withinLimits_of_countP (by decide) (by decide)
    have hentry : ∀ key value, ¬ Reply.HasEntry (Reply.withoutReasoning "No idea.") key value := by
      rw [hreply]
      exact fun _ _ ↦ Reply.not_hasEntry rfl
    obtain ⟨decision, asked, t, -, -, -, hroute, -, hvector⟩ := find_asks_one_store hsearch
      (hnote "No idea.") "parse dates" none (hcomplete "No idea." _ []) hlimits
    have hother : decision.route ≠ .graph := fun hgraph ↦ by
      obtain ⟨tag, htag, -⟩ := hroute.mp hgraph
      exact hentry _ _ htag
    have hvec : decision.route = .vector := by
      cases h : decision.route with
      | vector => rfl
      | graph => exact absurd h hother
    obtain ⟨sought, hseeks, -, hfind, -⟩ := hvector hvec
    cases hseeks with
    | summary h =>
      obtain ⟨value, hvalue, -⟩ := h
      exact absurd hvalue (hentry _ _)
    | query _ => exact ⟨decision, asked, t, hfind⟩

end CodeAtlas
