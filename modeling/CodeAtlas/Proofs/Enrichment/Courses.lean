import CodeAtlas.Enrichment.Process
import CodeAtlas.Proofs.Enrichment.Waiting
import CodeAtlas.Proofs.Program.Exchanges
import Mathlib.Logic.Relation

/-!
# The course of an enrichment

Whatever the services answer, the queue answers for itself: an offer, taking an item, settling it
(`Queue.Answers`). So what becomes of the queue when a function is processed depends on the services
only through one question, whether its record has been stored.

What the services are asked for a function is its *course*. A course stops at the first failure, so
there are five of them (`Course`), and in only one of them the record is stored. Processing takes an
item out, goes through its course and settles it (`ends_processNext_of`). What happens to the queue
while the services are asked is left open there; if nobody else uses it, this is nothing
(`ends_processNext`).
-/

open Relation (ReflTransGen)

namespace CodeAtlas

/-- Requests to the queue are answered by it, and the log takes what it is given. The other requests
may get any answer, and they leave the queue alone. -/
def Queue.Answers : Answering Queue
  | .offer item force, q, x, q' => x = .ok (q.offer item force).2 ∧ q' = (q.offer item force).1
  | .takeItem, q, x, q' =>
    match q.take with
    | some (item, rest) => x = .ok (some item) ∧ q' = rest
    | none => x = .ok none ∧ q' = q
  | .settle key success, q, x, q' => x = .ok () ∧ q' = q.settle key success
  | .queueStats, q, x, q' => (∃ running, x = .ok (q.stats running)) ∧ q' = q
  | .note _, q, x, q' => x = .ok () ∧ q' = q
  | _, q, _, q' => q' = q

/-- The state has a queue, and it is this queue that answers. -/
def HoldsQueue {σ : Type} (respond : Responder σ) (queue : σ → Queue) : Prop :=
  ∀ r s, Queue.Answers r (queue s) (respond r s).1 (queue (respond r s).2)

/-- Is it a request to a service outside? -/
def Request.isService : Request → Bool
  | offer .. | takeItem | settle .. | queueStats | note _ => false
  | _ => true

/-- A state may follow on another when a service is asked. -/
def Answering.Serving {γ : Type} (answers : Answering γ) (g g' : γ) : Prop :=
  ∃ (r : Request) (x : Except Fault r.Reply), r.isService = true ∧ answers r g x g'

/-- The exchanges with services outside. -/
def services (log : List Exchange) : List Exchange := log.filter fun e ↦ e.request.isService

theorem services_append (log log' : List Exchange) :
    services (log ++ log') = services log ++ services log' := List.filter_append _ _

/-- The item that the queue hands out in an exchange. -/
def Exchange.handedOut? : Exchange → Option Item
  | ⟨.takeItem, .ok item?⟩ => item?
  | _ => none

/-- The items that the queue hands out, in order. -/
def handedOut (log : List Exchange) : List Item := log.filterMap Exchange.handedOut?

theorem handedOut_append (log log' : List Exchange) :
    handedOut (log ++ log') = handedOut log ++ handedOut log' := List.filterMap_append

namespace Enrichment

open Program

/-- What is asked for the summary of a function. -/
def summaryRequest (limit : Int) (item : Item) : Request :=
  .complete (Prompt.summary (Text.cut limit item.code))

/-- What the services are asked for a function and how they answer, and whether the function has
been enriched then. -/
inductive Course (limit : Int) (item : Item) : List Exchange → Bool → Prop
  | noSummary (e : Fault) : Course limit item [⟨summaryRequest limit item, .error e⟩] false
  | blankSummary (reply : String) (h : (Reply.withoutReasoning reply).isEmpty = true) :
    Course limit item [⟨summaryRequest limit item, .ok reply⟩] false
  | notEmbedded (reply : String) (e : Fault) (h : (Reply.withoutReasoning reply).isEmpty = false) :
    Course limit item [⟨summaryRequest limit item, .ok reply⟩,
      ⟨.embed (Reply.withoutReasoning reply), .error e⟩] false
  | notStored (reply : String) (vector : List Number) (e : Fault)
    (h : (Reply.withoutReasoning reply).isEmpty = false) :
    Course limit item [⟨summaryRequest limit item, .ok reply⟩,
      ⟨.embed (Reply.withoutReasoning reply), .ok vector⟩,
      ⟨.storeRecord (recordOf item (Reply.withoutReasoning reply) vector), .error e⟩] false
  | stored (reply : String) (vector : List Number)
    (h : (Reply.withoutReasoning reply).isEmpty = false) :
    Course limit item [⟨summaryRequest limit item, .ok reply⟩,
      ⟨.embed (Reply.withoutReasoning reply), .ok vector⟩,
      ⟨.storeRecord (recordOf item (Reply.withoutReasoning reply) vector), .ok ()⟩] true

variable {γ : Type} {answers : Answering γ} {g g' : γ} {limit : Int} {item : Item} {q : Queue}
  {log : List Exchange}

theorem Course.services_eq {course : List Exchange} {success : Bool}
    (h : Course limit item course success) : services course = course := by
  cases h <;> rfl

theorem Course.handedOut_eq {course : List Exchange} {success : Bool}
    (h : Course limit item course success) : handedOut course = [] := by
  cases h <;> rfl

/-! ## One function -/

theorem ends_orEnrichmentFault {α : Type} {p : Program α} {what : String}
    {Q : Except Fault α → γ → Prop} :
    (orEnrichmentFault p what item).Ends answers Q g ↔ p.Ends answers (fun x g ↦ match x with
      | .ok a => Q (.ok a) g
      | .error e => Q (.error (.enrichment
          s!"{what} failed for {item.name} ({item.path}): {e.text}" (some e))) g) g := by
  rw [orEnrichmentFault, ends_bind, ends_attempt]
  refine ⟨fun h ↦ h.mono ?_, fun h ↦ h.mono ?_⟩ <;>
  · rintro (e | a) g hx
    · exact hx
    · exact hx

/-- How an enrichment ends after its course. -/
def EndsAs (success : Bool) (x : Except Fault Unit) : Prop :=
  if success then x = .ok () else ∃ m c, x = .error (.enrichment m c)

/-- An enrichment takes one of the courses, and asks nobody but the services. -/
theorem ends_enrich : (enrich limit item).Ends answers.logged (fun x h ↦
    ReflTransGen answers.Serving g h.1 ∧
      ∃ course success, Course limit item course success ∧ h.2 = log ++ course ∧ EndsAs success x)
    (g, log) := by
  rw [enrich, ends_bind, ends_orEnrichmentFault, summarize, complete, ends_bind, ends_request]
  rintro x ⟨g₁, log₁⟩ ⟨hx, hlog₁ : log₁ = _⟩
  have hg₁ : ReflTransGen answers.Serving g g₁ := .single ⟨_, x, rfl, hx⟩
  subst hlog₁
  cases x with
  | error e => exact ⟨hg₁, _, false, .noSummary e, rfl, _, _, rfl⟩
  | ok reply =>
    simp only [ends_pure]
    cases hblank : (Reply.withoutReasoning reply).isEmpty with
    | true =>
      rw [if_pos rfl]
      exact ⟨hg₁, _, false, .blankSummary reply hblank, rfl, _, _, rfl⟩
    | false =>
      rw [if_neg Bool.false_ne_true, ends_bind, ends_orEnrichmentFault, ends_request]
      rintro y ⟨g₂, log₂⟩ ⟨hy, hlog₂ : log₂ = _⟩
      have hg₂ : ReflTransGen answers.Serving g g₂ := hg₁.tail ⟨_, y, rfl, hy⟩
      subst hlog₂
      rw [List.append_assoc]
      cases y with
      | error e => exact ⟨hg₂, _, false, .notEmbedded reply e hblank, rfl, _, _, rfl⟩
      | ok vector =>
        refine ends_orEnrichmentFault.mpr (ends_request.mpr ?_)
        rintro z ⟨g₃, log₃⟩ ⟨hz, hlog₃ : log₃ = _⟩
        have hg₃ : ReflTransGen answers.Serving g g₃ := hg₂.tail ⟨_, z, rfl, hz⟩
        subst hlog₃
        rw [List.append_assoc]
        cases z with
        | error e => exact ⟨hg₃, _, false, .notStored reply vector e hblank, rfl, _, _, rfl⟩
        | ok _ => exact ⟨hg₃, _, true, .stored reply vector hblank, rfl, rfl⟩

/-! ## The oldest function -/

/-- Beside the course of the item that is handed out, only the queue and the log are spoken to. -/
theorem said_of_course {course closing : List Exchange} {success : Bool}
    (hcourse : Course limit item course success) (hhanded : handedOut closing = [])
    (hservices : services closing = []) :
    handedOut (log ++ [⟨.takeItem, .ok (some item)⟩] ++ course ++ closing)
        = handedOut log ++ [item] ∧
      services (log ++ [⟨.takeItem, .ok (some item)⟩] ++ course ++ closing)
        = services log ++ course := by
  constructor
  · simp only [handedOut_append, hhanded, hcourse.handedOut_eq, List.append_nil]
    rfl
  · simp only [services_append, hservices, hcourse.services_eq, List.append_nil]
    exact congrArg (· ++ course) (List.append_nil _)

/-- The item that is taken out goes through its course and is settled then. -/
theorem ends_processNext_of {settled : Bool → γ → γ}
    (htake : ∀ x h, answers .takeItem g x h → x = .ok (some item) ∧ h = g')
    (hnote : ∀ n h x h', answers (.note n) h x h' → x = .ok () ∧ h' = h)
    (hsettle : ∀ success h x h', answers (.settle item.key success) h x h' →
      x = .ok () ∧ h' = settled success h) :
    (processNext limit).Ends answers.logged (fun x h ↦ ∃ g₁ course success,
      ReflTransGen answers.Serving g' g₁ ∧ Course limit item course success ∧
      x = .ok (some success) ∧ h.1 = settled success g₁ ∧
      handedOut h.2 = handedOut log ++ [item] ∧ services h.2 = services log ++ course)
      (g, log) := by
  rw [processNext, ends_bind, ends_request]
  rintro x ⟨g₀, log₀⟩ ⟨hx, hlog₀ : log₀ = _⟩
  obtain ⟨rfl, rfl⟩ := htake x g₀ hx
  dsimp only
  subst hlog₀
  rw [ends_bind, ends_attempt]
  refine ends_enrich.mono ?_
  rintro x ⟨g₁, log₁⟩ ⟨hg₁, course, success, hcourse, hlog₁ : log₁ = _, hends⟩
  subst hlog₁
  cases success with
  | true =>
    obtain rfl : x = .ok () := hends
    refine ends_bind.mpr (ends_request.mpr ?_)
    rintro y ⟨g₂, log₂⟩ ⟨hy, hlog₂ : log₂ = _⟩
    obtain ⟨rfl, hg₂⟩ := hsettle true g₁ y g₂ hy
    subst hlog₂
    exact ⟨g₁, course, true, hg₁, hcourse, rfl, hg₂, said_of_course hcourse rfl rfl⟩
  | false =>
    obtain ⟨m, c, rfl⟩ := hends
    refine ends_bind.mpr (ends_request.mpr ?_)
    rintro y ⟨g₂, log₂⟩ ⟨hy, hlog₂ : log₂ = _⟩
    obtain ⟨rfl, rfl⟩ := hnote _ g₁ y g₂ hy
    subst hlog₂
    refine ends_bind.mpr (ends_request.mpr ?_)
    rintro z ⟨g₃, log₃⟩ ⟨hz, hlog₃ : log₃ = _⟩
    obtain ⟨rfl, hg₃⟩ := hsettle false g₂ z g₃ hz
    subst hlog₃
    refine ⟨g₂, course, false, hg₁, hcourse, rfl, hg₃, ?_⟩
    dsimp only
    rw [List.append_assoc]
    exact said_of_course hcourse rfl rfl

/-- Nobody else uses the queue while services are asked. -/
theorem eq_of_serving {q' : Queue} (h : ReflTransGen Queue.Answers.Serving q q') : q' = q := by
  induction h with
  | refl => rfl
  | tail _ hserving ih =>
    obtain ⟨r, x, hservice, hanswer⟩ := hserving
    refine Eq.trans ?_ ih
    cases r <;> first | exact hanswer | exact Bool.noConfusion hservice

/-- The oldest function is handed out, takes its course and is settled. -/
theorem ends_processNext {rest : List Item} (hq : q.pending = item :: rest) :
    (processNext limit).Ends Queue.Answers.logged (fun x g ↦ ∃ course success,
      Course limit item course success ∧ x = .ok (some success) ∧
      g.1 = q.afterFirst item rest success ∧ handedOut g.2 = handedOut log ++ [item] ∧
      services g.2 = services log ++ course) (q, log) := by
  have htake : ∀ x h, Queue.Answers .takeItem q x h →
      x = .ok (some item) ∧ h = { q with pending := rest } := by
    intro x h hx
    have hsome : q.take = some (item, { q with pending := rest }) := by
      rw [Queue.take, hq]
    rwa [Queue.Answers, hsome] at hx
  refine (ends_processNext_of htake (fun _ _ _ _ hx ↦ hx) fun _ _ _ _ hx ↦ hx).mono ?_
  rintro x g ⟨q', course, success, hserving, hcourse, hx, hsettled, hsaid⟩
  obtain rfl := eq_of_serving hserving
  exact ⟨course, success, hcourse, hx, hsettled, hsaid⟩

/-- Nothing waits, so nothing is processed. -/
theorem ends_processNext_nil (hq : q.pending = []) :
    (processNext limit).Ends Queue.Answers.logged (fun x g ↦ x = .ok none ∧ g.1 = q ∧
      handedOut g.2 = handedOut log ∧ services g.2 = services log) (q, log) := by
  rw [processNext, ends_bind, ends_request]
  rintro x ⟨q₁, log₁⟩ ⟨htake, hlog₁ : log₁ = _⟩
  have hnone : q.take = none := by
    rw [Queue.take, hq]
  rw [Queue.Answers, hnone] at htake
  obtain ⟨rfl, hq₁⟩ := htake
  refine ⟨rfl, hq₁, ?_, ?_⟩
  · rw [hlog₁, handedOut_append]
    exact List.append_nil _
  · rw [hlog₁, services_append]
    exact List.append_nil _

/-- An offer is answered by the queue. Only a full queue is reported. -/
theorem ends_offer {force : Bool} : (offer item force).Ends Queue.Answers (fun x g ↦
    x = .ok ((q.offer item force).2 == .pending) ∧ g = (q.offer item force).1) q := by
  rw [offer, ends_bind, ends_request]
  rintro x q₁ ⟨rfl, rfl⟩
  dsimp only
  cases hverdict : (q.offer item force).2 with
  | pending => exact ⟨rfl, rfl⟩
  | alreadyProcessed => exact ⟨rfl, rfl⟩
  | full =>
    refine ends_bind.mpr (ends_request.mpr ?_)
    rintro y q₂ ⟨⟨running, rfl⟩, rfl⟩
    refine ends_bind.mpr (ends_request.mpr ?_)
    rintro z q₃ ⟨rfl, rfl⟩
    exact ⟨rfl, rfl⟩

end Enrichment

end CodeAtlas
