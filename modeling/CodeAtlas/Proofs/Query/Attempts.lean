import CodeAtlas.Proofs.Program.Exchanges
import CodeAtlas.Proofs.Text.Marks
import CodeAtlas.Query.Plan

/-!
# The attempts of a plan

A plan alternates between the language model, which is asked for a query, and the graph, which is
asked to execute it. What both of them say, each in the order in which it is asked, is a *script*.
A script decides everything: how many attempts there are, what is asked in each of them, and how the
plan ends.

An attempt is *rejected* if the graph refuses its query as a query. The plan goes on after a rejected
attempt and after no other, so what comes before the last attempt are the rejections with which the
script begins. The step lemma is about one attempt (`run_attemptsFrom_succ`), the run lemma carries a
plan over its rejections (`run_attemptsFrom_rejections`), and the ways to end are read off at the
attempt that comes then (`run_make_of_rejects`).

What is put into a prompt stands there character for character, whatever the characters are, since a
prompt is a concatenation. That a first prompt holds no correction needs an argument: the question is
between quotation marks and the words of a correction have none, so these words stand in the question
or in the fixed text (`mentions_cypher_none`).
-/

namespace CodeAtlas

/-! ## What a prompt says -/

namespace Prompt

/-- Does a text stand in another one, character for character? -/
def Mentions (text part : String) : Prop := part.toList <:+: text.toList

/-- The words with which a correction begins. -/
def correctionOpening : String :=
  "\nThe previous query failed. Please avoid this error in the query: "

theorem mentions_append (before part after : String) :
    Mentions (before ++ (part ++ after)) part := by
  rw [Mentions, String.toList_append, String.toList_append, ← List.append_assoc]
  exact List.infix_append _ _ _

theorem mentions_append_left (part after : String) : Mentions (part ++ after) part := by
  rw [Mentions, String.toList_append]
  exact (List.prefix_append _ _).isInfix

theorem mentions_cypherWith_query (query correction : String) :
    Mentions (cypherWith query correction) query := by
  rw [cypherWith]
  simp only [String.append_assoc]
  rw [← String.append_assoc, ← String.append_assoc, ← String.append_assoc]
  exact mentions_append _ _ _

theorem mentions_cypherWith_correction (query correction : String) :
    Mentions (cypherWith query correction) correction := by
  rw [cypherWith]
  simp only [String.append_assoc]
  exact mentions_append _ _ _

theorem Mentions.trans {text part piece : String} (h : Mentions text part)
    (hpiece : Mentions part piece) : Mentions text piece := List.IsInfix.trans hpiece h

/-- The error is put behind the opening words. -/
theorem mentions_cypher_some {message : String} (hmessage : message ≠ "") (query : String) :
    Mentions (cypher query (some message)) (correctionOpening ++ message) := by
  have hfull : message.isEmpty = false := by simpa using hmessage
  have hopening : Mentions (correction message) (correctionOpening ++ message) := by
    have hcorrection : correction message = correctionOpening ++ message ++ "\n" := rfl
    rw [hcorrection]
    exact mentions_append_left _ _
  rw [cypher]
  simp only [hfull, Bool.false_eq_true, if_false]
  exact (mentions_cypherWith_correction _ _).trans hopening

theorem quote_notMem_correctionOpening : '"' ∉ correctionOpening.toList := by
  decide +kernel

/-- The fixed text before the question says nothing of a failed query. -/
theorem not_mentions_cypherGuide : ¬ Mentions (cypherGuide ++ "\nQuery: ") correctionOpening := by
  unfold Mentions cypherGuide correctionOpening
  -- The characters line by line: those of the whole text are slow to come by.
  simp only [String.toList_append]
  repeat rw [String.toList_ofList]
  decide +kernel

/-- A first prompt has the words of a correction only where the question has them. -/
theorem mentions_cypher_none (query : String) :
    Mentions (cypher query none) correctionOpening ↔ Mentions query correctionOpening := by
  have hclosing : ¬ Mentions "\n\nReturn only the Cypher query.\n" correctionOpening := by
    unfold Mentions
    decide +kernel
  have hprompt : (cypher query none).toList = (cypherGuide ++ "\nQuery: ").toList ++
      '"' :: (query.toList ++ '"' :: "\n\nReturn only the Cypher query.\n".toList) := by
    rw [cypher, cypherWith]
    simp only [String.toList_append]
    simp
  rw [Mentions, hprompt, infix_append_cons_iff quote_notMem_correctionOpening,
    infix_append_cons_iff quote_notMem_correctionOpening]
  exact ⟨fun h ↦ (h.resolve_left not_mentions_cypherGuide).resolve_right hclosing,
    fun h ↦ Or.inr (Or.inl h)⟩

end Prompt

/-! ## Scripts -/

namespace Request

/-- Is it the language model that is asked? -/
def isCompletion : Request → Bool
  | .complete _ => true
  | _ => false

/-- Is it the graph that is asked to execute a query? -/
def isQuery : Request → Bool
  | .runQuery _ => true
  | _ => false

end Request

namespace Plan

open Program

/-- What the language model replies and what comes of the queries, each in order. -/
structure Script where
  replies : ℕ → Except Fault String
  outcomes : ℕ → Except Fault (List Record)

/-- Answers as the script says. The state is the list of the requests so far, which tells how far the
script has come. -/
def Script.respond (script : Script) : Responder (List Request)
  | .complete prompt, asked =>
    (script.replies (asked.countP Request.isCompletion), asked ++ [.complete prompt])
  | .runQuery query, asked =>
    (script.outcomes (asked.countP Request.isQuery), asked ++ [.runQuery query])
  | .note notice, asked => (.ok (), asked ++ [.note notice])
  | r, asked => (.error (.outside .runtime "not in the script"), asked ++ [r])

/-- The query that is read out of a reply. -/
def candidate (reply : String) : String := Reply.withoutFence (Reply.withoutReasoning reply)

/-- An attempt whose query the graph refuses as a query. -/
structure Rejection where
  reply : String
  message : String
  cause : Option Fault

/-- The first attempts of the script are rejected in this way. -/
def Script.Rejects (script : Script) (rejections : List Rejection) : Prop :=
  ∀ i r, rejections[i]? = some r →
    script.replies i = .ok r.reply ∧ script.outcomes i = .error (.graphQuery r.message r.cause)

/-- What is recorded of a rejection. -/
def Rejection.attempt (r : Rejection) : Attempt := ⟨candidate r.reply, some r.message⟩

/-- What is asked in an attempt before its query comes back. `error` is the message that the attempt
before it has failed with. -/
def tryRequests (question : String) (error : Option String) (reply : String) : List Request :=
  [.complete (Prompt.cypher question error), .runQuery (candidate reply)]

/-- What is asked in attempts that are rejected, the first of which has the given number. -/
def rejectedRequests (question : String) (most : Int) :
    ℕ → Option String → List Rejection → List Request
  | _, _, [] => []
  | number, error, r :: rest =>
    tryRequests question error r.reply
      ++ .note ⟨false, plannerName, s!"Attempt {number}/{most} failed: {r.message}"⟩
      :: rejectedRequests question most (number + 1) (some r.message) rest

/-- The message of the last rejection. -/
def lastMessage (rejections : List Rejection) : Option String :=
  rejections.getLast?.map (·.message)

/-! ## One attempt -/

variable (script : Script) (question : String) (most : Int) (left : ℕ) (attempts : List Attempt)
  (error : Option String) (asked : List Request)

theorem run_generate : (generate question error).run script.respond asked =
    ((script.replies (asked.countP Request.isCompletion)).map candidate,
      asked ++ [.complete (Prompt.cypher question error)]) := by
  rw [generate, run_bind, Enrichment.complete, run_bind, run_request, Script.respond]
  cases script.replies (asked.countP Request.isCompletion) <;> rfl

/-- Everything that can come of an attempt. -/
theorem run_attemptsFrom_succ :
    (attemptsFrom question most (left + 1) attempts error).run script.respond asked =
      match script.replies (asked.countP Request.isCompletion) with
      | .error e => (.error e, asked ++ [.complete (Prompt.cypher question error)])
      | .ok reply =>
        match script.outcomes (asked.countP Request.isQuery) with
        | .ok records =>
          (.ok ⟨candidate reply, records, attempts ++ [⟨candidate reply, none⟩]⟩,
            asked ++ tryRequests question error reply)
        | .error (.graphQuery m _) =>
          (attemptsFrom question most left (attempts ++ [⟨candidate reply, some m⟩]) (some m)).run
            script.respond (asked ++ tryRequests question error reply ++
              [.note ⟨false, plannerName, s!"Attempt {attempts.length + 1}/{most} failed: {m}"⟩])
        | .error e => (.error e, asked ++ tryRequests question error reply) := by
  rw [attemptsFrom, run_bind, run_generate]
  cases script.replies (asked.countP Request.isCompletion) with
  | error e => rfl
  | ok reply =>
    have hcount (prompt : String) : (asked ++ [Request.complete prompt]).countP Request.isQuery
        = asked.countP Request.isQuery := by
      rw [List.countP_append]
      rfl
    dsimp only [Except.map]
    rw [run_bind, run_attempt, run_request, Script.respond, hcount, List.append_assoc]
    cases script.outcomes (asked.countP Request.isQuery) with
    | ok records => rfl
    | error e => cases e <;> rfl

variable {script question most left attempts error asked} {k : ℕ} {reply message : String}
  {cause : Option Fault} {records : List Record} {e : Fault}

/-- So many attempts have been made when this has been asked. -/
structure HasAsked (asked : List Request) (k : ℕ) : Prop where
  completions : asked.countP Request.isCompletion = k
  queries : asked.countP Request.isQuery = k

theorem hasAsked_nil : HasAsked [] 0 := ⟨rfl, rfl⟩

theorem HasAsked.rejected (h : HasAsked asked k) (notice : Notice) :
    HasAsked (asked ++ tryRequests question error reply ++ [.note notice]) (k + 1) := by
  constructor
  · rw [List.countP_append, List.countP_append, h.completions]
    rfl
  · rw [List.countP_append, List.countP_append, h.queries]
    rfl

/-! ## One rejection after another -/

theorem lastMessage_cons (r : Rejection) (rest : List Rejection) (error : Option String) :
    ((lastMessage (r :: rest)).or error) = (lastMessage rest).or (some r.message) := by
  rw [lastMessage, lastMessage, List.getLast?_cons]
  cases rest.getLast? <;> rfl

/-- A plan that meets rejections goes on behind them. -/
theorem run_attemptsFrom_rejections {rejections : List Rejection} (hasked : HasAsked asked k)
    (hattempts : attempts.length = k)
    (hrejections : ∀ i r, rejections[i]? = some r → script.replies (k + i) = .ok r.reply ∧
      script.outcomes (k + i) = .error (.graphQuery r.message r.cause)) :
    (attemptsFrom question most (rejections.length + left) attempts error).run script.respond asked =
        (attemptsFrom question most left (attempts ++ rejections.map Rejection.attempt)
          ((lastMessage rejections).or error)).run script.respond
          (asked ++ rejectedRequests question most (k + 1) error rejections) ∧
      HasAsked (asked ++ rejectedRequests question most (k + 1) error rejections)
        (k + rejections.length) := by
  -- What is left of the script moves on with each rejection, so the induction is for every state.
  induction rejections generalizing asked k attempts error with
  | nil =>
    rw [rejectedRequests, List.append_nil, List.map_nil, List.append_nil]
    exact ⟨by rw [List.length_nil, Nat.zero_add]; rfl, hasked⟩
  | cons r rest ih =>
    obtain ⟨hreply, houtcome⟩ := hrejections 0 r rfl
    have hrest : ∀ i r', rest[i]? = some r' → script.replies (k + 1 + i) = .ok r'.reply ∧
        script.outcomes (k + 1 + i) = .error (.graphQuery r'.message r'.cause) := by
      intro i r' hr'
      have hnext := hrejections (i + 1) r' hr'
      rwa [Nat.add_comm i 1, ← Nat.add_assoc] at hnext
    have hlength : (attempts ++ [r.attempt]).length = k + 1 := by
      rw [List.length_append, hattempts, List.length_singleton]
    let notice : Notice := ⟨false, plannerName, s!"Attempt {k + 1}/{most} failed: {r.message}"⟩
    have hasked' : HasAsked (asked ++ tryRequests question error r.reply ++ [.note notice]) (k + 1) :=
      hasked.rejected notice
    have hstep : (attemptsFrom question most ((r :: rest).length + left) attempts error).run
        script.respond asked
        = (attemptsFrom question most (rest.length + left) (attempts ++ [r.attempt])
            (some r.message)).run script.respond
            (asked ++ tryRequests question error r.reply ++ [.note notice]) := by
      rw [Nat.add_zero] at hreply houtcome
      rw [List.length_cons, Nat.add_right_comm, run_attemptsFrom_succ, hasked.completions,
        hasked.queries, hreply, houtcome, hattempts]
      rfl
    have hrequests : asked ++ rejectedRequests question most (k + 1) error (r :: rest)
        = asked ++ tryRequests question error r.reply ++ [.note notice] ++
          rejectedRequests question most (k + 1 + 1) (some r.message) rest := by
      rw [rejectedRequests, List.append_assoc, List.append_assoc, List.singleton_append]
    obtain ⟨hrun, hgone⟩ := ih hasked' hlength hrest
    rw [hrequests]
    constructor
    · rw [hstep, hrun, lastMessage_cons, List.map_cons, List.append_assoc attempts,
        List.singleton_append]
    · have hcount : k + (r :: rest).length = k + 1 + rest.length := by
        rw [List.length_cons]
        omega
      exact hcount ▸ hgone

/-! ## The end -/

/-- How a plan ends when so many rejections are behind it: its result, and what is asked at last. -/
inductive Script.Ending (script : Script) (most : ℕ) (question : String)
    (rejections : List Rejection) : Except Fault Plan → List Request → Prop
  | usedUp (h : rejections.length = most) : Ending script most question rejections
      (.error (.generation question (rejections.map Rejection.attempt) none)) []
  | success (reply : String) (records : List Record) (h : rejections.length < most)
      (hreply : script.replies rejections.length = .ok reply)
      (houtcome : script.outcomes rejections.length = .ok records) :
    Ending script most question rejections
      (.ok ⟨candidate reply, records,
        rejections.map Rejection.attempt ++ [⟨candidate reply, none⟩]⟩)
      (tryRequests question (lastMessage rejections) reply)
  | noReply (e : Fault) (h : rejections.length < most)
      (hreply : script.replies rejections.length = .error e) :
    Ending script most question rejections (.error e)
      [.complete (Prompt.cypher question (lastMessage rejections))]
  | failure (reply : String) (e : Fault) (h : rejections.length < most)
      (hreply : script.replies rejections.length = .ok reply)
      (houtcome : script.outcomes rejections.length = .error e)
      (he : ∀ message cause, e ≠ .graphQuery message cause) :
    Ending script most question rejections (.error e)
      (tryRequests question (lastMessage rejections) reply)

variable {rejections : List Rejection} {allowed : ℕ}

theorem Script.rejects_nil : script.Rejects [] := by
  intro i r hr
  exact absurd hr (by simp)

theorem Script.Rejects.concat (h : script.Rejects rejections)
    (hreply : script.replies rejections.length = .ok reply)
    (houtcome : script.outcomes rejections.length = .error (.graphQuery message cause)) :
    script.Rejects (rejections ++ [⟨reply, message, cause⟩]) := by
  intro i r hr
  rw [List.getElem?_append] at hr
  split at hr
  · exact h i r hr
  · rename_i hi
    rw [List.getElem?_singleton] at hr
    split at hr
    · have hlength : i = rejections.length := by omega
      rw [hlength, ← Option.some.inj hr]
      exact ⟨hreply, houtcome⟩
    · exact nomatch hr

/-- Every script ends, or it goes on with as many rejections as one likes up to what is allowed. -/
theorem Script.exists_ending (script : Script) (question : String) {k : ℕ} (hk : k ≤ allowed) :
    (∃ rejections, script.Rejects rejections ∧ rejections.length = k) ∨
      ∃ rejections x last, script.Rejects rejections ∧
        script.Ending allowed question rejections x last := by
  induction k with
  | zero => exact Or.inl ⟨[], Script.rejects_nil, rfl⟩
  | succ k ih =>
    rcases ih (Nat.le_of_succ_le hk) with ⟨rejections, hrejects, rfl⟩ | hended
    · cases hreply : script.replies rejections.length with
      | error e => exact Or.inr ⟨_, _, _, hrejects, .noReply e hk hreply⟩
      | ok reply =>
        cases houtcome : script.outcomes rejections.length with
        | ok records => exact Or.inr ⟨_, _, _, hrejects, .success reply records hk hreply houtcome⟩
        | error e =>
          by_cases he : ∃ message cause, e = .graphQuery message cause
          · obtain ⟨message, cause, rfl⟩ := he
            exact Or.inl ⟨_, hrejects.concat hreply houtcome, List.length_append⟩
          · refine Or.inr ⟨_, _, _, hrejects, .failure reply e hk hreply houtcome ?_⟩
            intro message cause heq
            exact he ⟨message, cause, heq⟩
    · exact Or.inr hended

/-- A plan comes to the attempt behind the rejections with which the script begins. -/
theorem run_make_of_rejects (question : String) (hrejects : script.Rejects rejections)
    (hallowed : rejections.length + left = allowed) :
    (make allowed question).run script.respond [] =
        (attemptsFrom question allowed left (rejections.map Rejection.attempt)
          (lastMessage rejections)).run script.respond
          (rejectedRequests question allowed 1 none rejections) ∧
      HasAsked (rejectedRequests question allowed 1 none rejections) rejections.length := by
  have hrejections : ∀ i r, rejections[i]? = some r → script.replies (0 + i) = .ok r.reply ∧
      script.outcomes (0 + i) = .error (.graphQuery r.message r.cause) := by
    intro i r hr
    rw [Nat.zero_add]
    exact hrejects i r hr
  obtain ⟨hrun, hasked⟩ :=
    run_attemptsFrom_rejections hasAsked_nil (List.length_nil (α := Attempt)) hrejections
  rw [hallowed, List.nil_append, List.nil_append, Option.or_none] at hrun
  rw [List.nil_append, Nat.zero_add rejections.length] at hasked
  exact ⟨hrun, hasked⟩

/-- A run of a plan: the rejections with which the script begins, and then the end. -/
theorem run_make_of_ending (hrejects : script.Rejects rejections) {x : Except Fault Plan}
    {last : List Request} (hending : script.Ending allowed question rejections x last) :
    (make allowed question).run script.respond []
      = (x, rejectedRequests question allowed 1 none rejections ++ last) := by
  have hle : rejections.length ≤ allowed := by
    cases hending <;> omega
  obtain ⟨left, hleft⟩ := Nat.exists_eq_add_of_le hle
  obtain ⟨hrun, hasked⟩ := run_make_of_rejects question hrejects hleft.symm
  rw [hrun]
  cases hending with
  | usedUp h =>
    obtain rfl : left = 0 := by omega
    rw [List.append_nil]
    rfl
  | success reply records h hreply houtcome =>
    obtain ⟨left, rfl⟩ := Nat.exists_eq_succ_of_ne_zero (by omega : left ≠ 0)
    rw [run_attemptsFrom_succ, hasked.completions, hasked.queries, hreply, houtcome]
  | noReply e h hreply =>
    obtain ⟨left, rfl⟩ := Nat.exists_eq_succ_of_ne_zero (by omega : left ≠ 0)
    rw [run_attemptsFrom_succ, hasked.completions, hreply]
  | failure reply e h hreply houtcome he =>
    obtain ⟨left, rfl⟩ := Nat.exists_eq_succ_of_ne_zero (by omega : left ≠ 0)
    rw [run_attemptsFrom_succ, hasked.completions, hasked.queries, hreply, houtcome]
    cases e with
    | graphQuery message cause => exact absurd rfl (he message cause)
    | _ => rfl

/-- **What a plan does, whatever the model and the graph say.** If its script begins with these
rejections and then ends in this way, then this is the result, and nothing else is asked; and every
script is of this kind. The prompt of an attempt holds the question and the message of the rejection
before it, character for character, and the first one has the words of a correction only where the
question has them. -/
theorem make_of_script (allowed : ℕ) (question : String) (script : Script) :
    (∀ rejections x last, script.Rejects rejections →
      script.Ending allowed question rejections x last →
        (make allowed question).run script.respond []
          = (x, rejectedRequests question allowed 1 none rejections ++ last)) ∧
    (∃ rejections x last, script.Rejects rejections ∧
      script.Ending allowed question rejections x last) ∧
    (∀ error, Prompt.Mentions (Prompt.cypher question error) question) ∧
    (∀ message, message ≠ "" → Prompt.Mentions (Prompt.cypher question (some message))
      (Prompt.correctionOpening ++ message)) ∧
    (Prompt.Mentions (Prompt.cypher question none) Prompt.correctionOpening ↔
      Prompt.Mentions question Prompt.correctionOpening) := by
  refine ⟨?_, ?_, ?_, ?_, Prompt.mentions_cypher_none question⟩
  · intro rejections x last hrejects hending
    exact run_make_of_ending hrejects hending
  · rcases script.exists_ending question (le_refl allowed) with ⟨rejections, hrejects, hlength⟩ | hended
    · exact ⟨rejections, _, _, hrejects, .usedUp hlength⟩
    · exact hended
  · intro error
    exact Prompt.mentions_cypherWith_query question _
  · intro message hmessage
    exact Prompt.mentions_cypher_some hmessage question

/-- A query that lacks a parenthesis. -/
def unclosedQuery : String := "MATCH (n RETURN n"

/-- The same query without the fault, in a fenced block. -/
def fencedQuery : String := "\x60\x60\x60cypher\nMATCH (n) RETURN n\n\x60\x60\x60"

/-- A message with a brace and quotation marks. -/
def unclosedMessage : String := "Invalid input '\x7b': expected \")\""

/-- The first query is refused, the second one succeeds. -/
def correctedScript : Script where
  replies i := .ok (if i = 0 then unclosedQuery else fencedQuery)
  outcomes i := if i = 0 then .error (.graphQuery unclosedMessage none) else .ok []

theorem make_of_script_corrected :
    let rejection : Rejection := ⟨unclosedQuery, unclosedMessage, none⟩
    let x : Except Fault Plan := .ok ⟨"MATCH (n) RETURN n", [],
      [⟨"MATCH (n RETURN n", some unclosedMessage⟩, ⟨"MATCH (n) RETURN n", none⟩]⟩
    let last : List Request :=
      [.complete (Prompt.cypher "Who?" (some unclosedMessage)), .runQuery "MATCH (n) RETURN n"]
    correctedScript.Rejects [rejection] ∧ correctedScript.Ending 3 "Who?" [rejection] x last ∧
      unclosedMessage ≠ "" ∧
      (make 3 "Who?").run correctedScript.respond []
        = (x, rejectedRequests "Who?" 3 1 none [rejection] ++ last) ∧
      Prompt.Mentions (Prompt.cypher "Who?" (some unclosedMessage))
        (Prompt.correctionOpening ++ unclosedMessage) := by
  intro rejection x last
  have hrejects : correctedScript.Rejects [rejection] := Script.rejects_nil.concat rfl rfl
  have hfirst : candidate unclosedQuery = "MATCH (n RETURN n" := by decide +kernel
  have hsecond : candidate fencedQuery = "MATCH (n) RETURN n" := by decide +kernel
  have hending : correctedScript.Ending 3 "Who?" [rejection]
      (.ok ⟨candidate fencedQuery, [],
        [⟨candidate unclosedQuery, some unclosedMessage⟩, ⟨candidate fencedQuery, none⟩]⟩)
      (tryRequests "Who?" (some unclosedMessage) fencedQuery) :=
    .success fencedQuery [] (by decide) rfl rfl
  rw [tryRequests, hfirst, hsecond] at hending
  have hmessage : unclosedMessage ≠ "" := by decide
  obtain ⟨hruns, -, -, hmentions, -⟩ := make_of_script 3 "Who?" correctedScript
  exact ⟨hrejects, hending, hmessage, hruns _ _ _ hrejects hending, hmentions _ hmessage⟩

end Plan

end CodeAtlas
