import CodeAtlas.Proofs.Enrichment.Offering
import CodeAtlas.Proofs.Enrichment.Surroundings
import CodeAtlas.Proofs.Indexing.Interleaving
import CodeAtlas.Proofs.Indexing.Refusals

/-!
# What indexing puts in the queue

Registering a file offers an item for each of its functions that is in want of a record, in the order
of the declarations. A function wants one if it has none, or always, if the file is registered
because it has changed. The item carries the id of the function's node, and the answer of the record
store does not change on the way, so what is offered can be written down before: `wanting`.

Nothing else of a registration concerns the queue. This is `Enqueued`, with what the registration
leaves in the graph, a node for each function; it holds of a file, of the files of a directory one
after the other, and of a whole tree.
-/

namespace CodeAtlas

open Syntax (Function FunctionKey Outline)

/-- The answers to the offers are ones that may be given. -/
abbrev OffersPermitted (permits : Exchange → Bool) (force : Bool) (items : List Item) (q : Queue) :
    Prop :=
  q.EachOffer (fun i v ↦ permits ⟨.offer i force, .ok v⟩ = true) force items

namespace Indexing

open CodeAtlas.Graph Program

/-- The item of a function, with the id of its node. -/
def itemFor (digest : Digest) (f : Function) : Item :=
  itemOf (functionId digest f.name f.path) f

/-- Does the function want a record? -/
def lacksRecord (digest : Digest) (reparse : Bool) (records : List FunctionRecord) (f : Function) :
    Bool :=
  reparse || !records.any fun q ↦ q.id == functionId digest f.name f.path

/-- The items of the functions that want a record. -/
def wanting (digest : Digest) (reparse : Bool) (records : List FunctionRecord)
    (functions : List Function) : List Item :=
  (functions.filter (lacksRecord digest reparse records)).map (itemFor digest)

theorem wanting_append (digest : Digest) (reparse : Bool) (records : List FunctionRecord)
    (functions functions' : List Function) :
    wanting digest reparse records (functions ++ functions')
      = wanting digest reparse records functions ++ wanting digest reparse records functions' := by
  rw [wanting, List.filter_append, List.map_append]
  rfl

variable {digest : Digest} {permits : Exchange → Bool} {rules : RegistrationRules}
  {a b c : Surroundings} {functions functions' : List Function}

/-! ## What keeps aside -/

section IsAside

variable {α : Type}

theorem isAside_orRefused {p : Program α} {message : Fault → String} {substitute : α}
    (hp : p.IsAside) : (orRefused p message substitute).IsAside :=
  asks_orRefused (fun _ ↦ rfl) hp trivial

theorem isAside_mergeFile (path : String) : (mergeFile path).IsAside :=
  isAside_orRefused ((isAside_request rfl).bind fun _ ↦ trivial)

theorem isAside_mergeFunction (name path : String) : (mergeFunction name path).IsAside :=
  isAside_orRefused ((isAside_request rfl).bind fun _ ↦ trivial)

theorem isAside_mergeImports (path : String) (imports : List Syntax.Import) :
    (mergeImports path imports).IsAside := by
  induction imports with
  | nil => trivial
  | cons i imports ih =>
    have hmerge : (mergeImport path i.source i.clause).IsAside :=
      isAside_orRefused ((isAside_request rfl).bind fun _ ↦ trivial)
    exact hmerge.bind fun _ ↦ ih.bind fun _ ↦ trivial

theorem isAside_syncImports (path : String) (imports : List Syntax.Import) :
    (syncImports path imports).IsAside := by
  refine (isAside_mergeImports path imports).bind fun _ ↦ (isAside_request rfl).attempt.bind
    fun x ↦ ?_
  rcases x with e | edges
  · cases e with
    | graphQuery m c => exact (isAside_request rfl).bind fun _ ↦ trivial
    | _ => trivial
  · have hdelete : ∀ target clause, (deleteImport path target clause).IsAside :=
      fun _ _ ↦ isAside_orRefused (isAside_request rfl)
    exact IsAside.bind ((deletesUnwanted_imports path _).asks fun e _ ↦ hdelete _ _) fun _ ↦ trivial

theorem isAside_findCalleePath (path callee : String) : (findCalleePath path callee).IsAside := by
  apply (isAside_request rfl).attempt.bind
  intro x
  rcases x with e | edges
  · cases e with
    | graphQuery m c => exact (isAside_request rfl).bind fun _ ↦ trivial
    | _ => trivial
  · cases edges with
    | nil => trivial
    | cons e edges =>
      dsimp only
      split <;> trivial

theorem isAside_linkCalls (linkLocal : Bool) (f : Function) (localNames callees : List String) :
    (linkCalls linkLocal f localNames callees).IsAside := by
  induction callees with
  | nil => trivial
  | cons c callees ih =>
    rw [linkCalls_cons]
    apply (isAside_findCalleePath f.path c).bind
    intro found
    cases targetPath linkLocal f localNames c found with
    | none => exact ih
    | some d =>
      have hmerge : (mergeCall f.name f.path c d).IsAside :=
        isAside_orRefused ((isAside_request rfl).bind fun _ ↦ trivial)
      exact IsAside.bind (asks_ofExcept fun _ _ ↦ trivial) fun _ ↦ hmerge.bind fun _ ↦
        ih.bind fun _ ↦ trivial

theorem isAside_resolveFunctions (linkLocal : Bool) (localNames : List String)
    (functions : List Function) : (resolveFunctions linkLocal localNames functions).IsAside := by
  induction functions with
  | nil => trivial
  | cons f functions ih =>
    have hdelete : ∀ name path, (deleteCall f.name f.path name path).IsAside :=
      fun _ _ ↦ isAside_orRefused (isAside_request rfl)
    have hone : (resolveFunction linkLocal f localNames).IsAside := by
      refine (isAside_linkCalls linkLocal f localNames f.calls).bind fun linked ↦
        (isAside_request rfl).attempt.bind fun x ↦ ?_
      rcases x with e | edges
      · cases e with
        | graphQuery m c => exact (isAside_request rfl).bind fun _ ↦ trivial
        | _ => trivial
      · exact IsAside.bind ((deletesUnwanted_calls f _).asks fun e _ ↦ hdelete _ _)
          fun _ ↦ trivial
    exact hone.bind fun _ ↦ ih.bind fun _ ↦ trivial

end IsAside

/-! ## What is offered -/

/-- The functions that want a record have been offered, and nothing else was done about the
enrichment. -/
structure Offered (digest : Digest) (permits : Exchange → Bool) (reparse : Bool)
    (functions : List Function) (a b : Surroundings) : Prop where
  queue : b.queue
    = a.queue.offerAll reparse (wanting digest reparse (recordsIn a.log) functions)
  permitted : OffersPermitted permits reparse
    (wanting digest reparse (recordsIn a.log) functions) a.queue
  deeds : deeds b.log = deeds a.log

theorem Offered.of_aside {reparse : Bool}
    (h : b.queue = a.queue ∧ CodeAtlas.deeds b.log = CodeAtlas.deeds a.log) :
    Offered digest permits reparse [] a b := ⟨h.1, trivial, h.2⟩

theorem Offered.trans {reparse : Bool} (hab : Offered digest permits reparse functions a b)
    (hbc : Offered digest permits reparse functions' b c) :
    Offered digest permits reparse (functions ++ functions') a c := by
  have hrecords : recordsIn b.log = recordsIn a.log := recordsIn_eq_of_deeds hab.deeds
  obtain ⟨hqueue, hpermitted, hdeeds⟩ := hbc
  rw [hrecords, hab.queue] at hqueue hpermitted
  constructor
  case queue => rw [wanting_append, Queue.offerAll_append, hqueue]
  case permitted =>
    rw [wanting_append]
    exact hab.permitted.append hpermitted
  case deeds => exact hdeeds.trans hab.deeds

/-- What registering functions comes to: besides the offers, each has a node. -/
structure Enqueued (digest : Digest) (permits : Exchange → Bool) (reparse : Bool)
    (functions : List Function) (a b : Surroundings) : Prop extends
    Offered digest permits reparse functions a b where
  textual : b.graph.Textual digest
  node : ∀ id n, a.graph.node? id = some n → b.graph.node? id = some n
  declared : ∀ f ∈ functions, ∃ n, b.graph.node? (functionId digest f.name f.path) = some n

theorem Enqueued.of_aside {reparse : Bool} (ha : a.graph.Textual digest) (hgraph : b.graph = a.graph)
    (h : b.queue = a.queue ∧ CodeAtlas.deeds b.log = CodeAtlas.deeds a.log) :
    Enqueued digest permits reparse [] a b :=
  ⟨.of_aside h, hgraph ▸ ha, fun _ _ hn ↦ hgraph ▸ hn, fun _ hf ↦ absurd hf List.not_mem_nil⟩

theorem Enqueued.trans {reparse : Bool} (hab : Enqueued digest permits reparse functions a b)
    (hbc : Enqueued digest permits reparse functions' b c) :
    Enqueued digest permits reparse (functions ++ functions') a c := by
  refine ⟨hab.toOffered.trans hbc.toOffered, hbc.textual,
    fun id n hn ↦ hbc.node id n (hab.node id n hn), ?_⟩
  intro f hf
  rcases List.mem_append.mp hf with hf | hf
  · obtain ⟨n, hn⟩ := hab.declared f hf
    exact ⟨n, hbc.node _ n hn⟩
  · exact hbc.declared f hf

/-! ## Functions -/

theorem ends_mergeFunction_surroundings {name path : String} :
    (mergeFunction name path).Ends (Surroundings.Answers digest permits)
      (fun x b ↦ x = .ok (some (functionId digest name path)) ∧ b.queue = a.queue ∧
        deeds b.log = deeds a.log) a := by
  have hid : (mergeFunction name path).Gives (Graph.Answers digest) a.graph
      (.ok (some (functionId digest name path))) _ := gives_mergeFunction (only_answer rfl)
  have hview := Ends.of_view (b := Surroundings.Answers digest permits) Surroundings.graph
    (fun _ _ _ _ hanswer ↦ hanswer.graph) hid
  exact (hview.and ((isAside_mergeFunction name path).ends a)).mono fun _ _ h ↦ ⟨h.1.1, h.2⟩

/-- Whether a function wants a record is up to the records. -/
theorem ends_needsEnrichment_surroundings {id : String} :
    (needsEnrichment rules id).Ends (Surroundings.Answers digest permits)
      (fun x b ↦ x = .ok (rules.reparse || !(recordsIn a.log).any fun q ↦ q.id == id) ∧
        b.queue = a.queue ∧ deeds b.log = deeds a.log) a := by
  rw [needsEnrichment]
  cases rules.reparse with
  | true => exact ⟨rfl, rfl, rfl⟩
  | false =>
    intro x b hb
    obtain ⟨rfl, -⟩ := hb.records
    refine ⟨rfl, hb.queue, ?_⟩
    rw [hb.log]
    exact deeds_append rfl _ _

theorem ends_offer_surroundings {item : Item} {force : Bool} :
    (Enrichment.offer item force).Ends (Surroundings.Answers digest permits)
      (fun x b ↦ (∃ v, x = .ok v) ∧ b.queue = (a.queue.offer item force).1 ∧
        permits ⟨.offer item force, .ok (a.queue.offer item force).2⟩ = true ∧
        deeds b.log = deeds a.log) a := by
  refine ends_bind.mpr (ends_request.mpr ?_)
  intro x b hb
  have hpermitted := hb.permitted
  obtain ⟨rfl, hqueue⟩ := hb.queue
  have hdeeds : deeds b.log = deeds a.log := by
    rw [hb.log]
    exact deeds_append rfl _ _
  dsimp only
  cases hverdict : (a.queue.offer item force).2 with
  | pending => exact ⟨⟨_, rfl⟩, hqueue, hverdict ▸ hpermitted, hdeeds⟩
  | alreadyProcessed => exact ⟨⟨_, rfl⟩, hqueue, hverdict ▸ hpermitted, hdeeds⟩
  | full =>
    -- That the queue is full is reported.
    refine ends_bind.mpr (ends_request.mpr ?_)
    intro y c hc
    obtain ⟨⟨running, rfl⟩, hqueue'⟩ := hc.queue
    refine ends_bind.mpr (ends_request.mpr ?_)
    intro z d hd
    obtain ⟨rfl, hqueue''⟩ := hd.queue
    refine ⟨⟨_, rfl⟩, hqueue''.trans (hqueue'.trans hqueue), hverdict ▸ hpermitted, ?_⟩
    rw [hd.log, deeds_append rfl, hc.log, deeds_append rfl]
    exact hdeeds

/-- A function that wants a record is offered. -/
theorem ends_registerFunction_surroundings (henriches : rules.enriches = true) {f : Function} :
    (registerFunction rules f).Ends (Surroundings.Answers digest permits)
      (fun x b ↦ (∃ v, x = .ok v) ∧ Offered digest permits rules.reparse [f] a b) a := by
  refine ends_bind.mpr (ends_mergeFunction_surroundings.mono ?_)
  rintro x b ⟨rfl, hqueue, hdeeds⟩
  dsimp only
  rw [henriches]
  refine ends_bind.mpr (ends_needsEnrichment_surroundings.mono ?_)
  rintro y c ⟨rfl, hqueue', hdeeds'⟩
  rw [recordsIn_eq_of_deeds hdeeds, ← lacksRecord]
  rw [hqueue] at hqueue'
  rw [hdeeds] at hdeeds'
  dsimp only
  cases hlacks : lacksRecord digest rules.reparse (recordsIn a.log) f with
  | true =>
    have hone : wanting digest rules.reparse (recordsIn a.log) [f] = [itemFor digest f] := by
      rw [wanting, List.filter_cons_of_pos hlacks]
      rfl
    refine ends_offer_surroundings.mono ?_
    rintro z d ⟨hz, hqueue'', hpermitted, hdeeds''⟩
    rw [hqueue'] at hqueue'' hpermitted
    refine ⟨hz, ?_, ?_, hdeeds''.trans hdeeds'⟩
    · rw [hone]
      exact hqueue''
    · rw [hone]
      exact ⟨hpermitted, trivial⟩
  | false =>
    have hnone : wanting digest rules.reparse (recordsIn a.log) [f] = [] := by
      rw [wanting, List.filter_cons_of_neg (by rw [hlacks]; exact Bool.false_ne_true)]
      rfl
    refine ⟨⟨_, rfl⟩, ?_, ?_, hdeeds'⟩
    · rw [hnone]
      exact hqueue'
    · rw [hnone]
      exact trivial

theorem ends_registerFunctions_surroundings (henriches : rules.enriches = true) :
    (registerFunctions rules functions).Ends (Surroundings.Answers digest permits)
      (fun x b ↦ (∃ n, x = .ok n) ∧ Offered digest permits rules.reparse functions a b) a := by
  induction functions generalizing a with
  | nil => exact ⟨⟨0, rfl⟩, .of_aside ⟨rfl, rfl⟩⟩
  | cons f functions ih =>
    refine ends_bind.mpr ((ends_registerFunction_surroundings henriches).mono ?_)
    rintro x b ⟨⟨v, rfl⟩, hfirst⟩
    refine ends_bind.mpr (ih.mono ?_)
    rintro y c ⟨⟨n, rfl⟩, hrest⟩
    exact ⟨⟨_, rfl⟩, hfirst.trans hrest⟩

/-! ## Files -/

section Registered

variable {g : Graph} {linkLocal : Bool} {o : Outline}

theorem textual_registered (hg : g.Textual digest) :
    (registered digest linkLocal o g).Textual digest :=
  textual_resolvedAll (textual_prepared hg) rfl

theorem node?_registered_of_some {id : String} {n : Node} (hn : g.node? id = some n) :
    (registered digest linkLocal o g).node? id = some n :=
  node?_resolvedAll_of_some (node?_addFunctions_of_some
    (node?_addImports_of_some (node?_mergeNode_of_some hn)))

theorem exists_node?_registered {f : Function} (hf : f ∈ o.functions) :
    ∃ n, (registered digest linkLocal o g).node? (functionId digest f.name f.path) = some n := by
  obtain ⟨n, hn⟩ : ∃ n, (prepared digest o g).node? (functionId digest f.name f.path) = some n :=
    exists_node?_addFunctions hf
  exact ⟨n, node?_resolvedAll_of_some hn⟩

end Registered

/-- The functions that a version of a file declares. -/
def declaredIn : Except Fault Outline → List Function
  | .ok o => o.functions
  | .error _ => []

theorem ends_registerOutline_surroundings (henriches : rules.enriches = true)
    (ha : a.graph.Textual digest) {o : Outline} :
    (registerOutline rules o).Ends (Surroundings.Answers digest permits)
      (fun x b ↦ (∃ r, x = .ok r) ∧ Enqueued digest permits rules.reparse o.functions a b) a := by
  have hgraph := (ends_registerOutline ha).of_view
    (p := registerOutline rules o) (b := Surroundings.Answers digest permits) Surroundings.graph
    fun _ _ _ _ hanswer ↦ hanswer.graph
  have hqueue : (registerOutline rules o).Ends (Surroundings.Answers digest permits)
      (fun x b ↦ ∀ r, x = .ok r → Offered digest permits rules.reparse o.functions a b) a := by
    refine ends_bind.mpr (((isAside_mergeFile o.path).ends a).mono ?_)
    rintro (e | -) b hb
    · exact fun _ he ↦ absurd he (by simp)
    refine ends_bind.mpr (((isAside_syncImports o.path o.imports).ends b).mono ?_)
    rintro (e | -) c hc
    · exact fun _ he ↦ absurd he (by simp)
    refine ends_bind.mpr ((ends_registerFunctions_surroundings henriches).mono ?_)
    rintro x d ⟨⟨n, rfl⟩, hd⟩
    refine ends_bind.mpr (((isAside_resolveFunctions rules.linkLocal (o.functions.map (·.name))
      o.functions).ends d).mono ?_)
    rintro (e | -) e' he'
    · exact fun _ he ↦ absurd he (by simp)
    rintro r -
    have hall := (((Offered.of_aside hb).trans (.of_aside hc)).trans hd).trans (.of_aside he')
    rw [List.append_nil, List.append_nil, List.nil_append] at hall
    exact hall
  refine (hgraph.and hqueue).mono ?_
  rintro x b ⟨⟨⟨n, rfl⟩, hb⟩, hoffered⟩
  refine ⟨⟨_, rfl⟩, hoffered _ rfl, hb ▸ textual_registered ha, fun id n hn ↦ ?_, fun f hf ↦ ?_⟩
  · rw [hb]
    exact node?_registered_of_some hn
  · rw [hb]
    exact exists_node?_registered hf

theorem ends_note_surroundings {n : Notice} : (request (.note n)).Ends
    (Surroundings.Answers digest permits) (fun x b ↦ x = .ok () ∧ b.graph = a.graph ∧
      b.queue = a.queue ∧ deeds b.log = deeds a.log) a := by
  apply ends_request.mpr
  intro x b hb
  obtain ⟨rfl, hqueue⟩ := hb.queue
  refine ⟨rfl, hb.graph.2, hqueue, ?_⟩
  rw [hb.log]
  exact deeds_append rfl _ _

/-- A version that can be read is registered, and one that cannot be read is passed over. -/
theorem ends_registerFile_surroundings (henriches : rules.enriches = true)
    (ha : a.graph.Textual digest) (version : Except Fault Outline) :
    (registerFile rules version).Ends (Surroundings.Answers digest permits)
      (fun x b ↦ ((∃ r, x = .ok (some r)) ↔ ∃ o, version = .ok o) ∧
        Enqueued digest permits rules.reparse (declaredIn version) a b) a := by
  cases version with
  | ok o =>
    refine ends_bind.mpr (ends_attempt.mpr ((ends_registerOutline_surroundings henriches ha).mono ?_))
    rintro x b ⟨⟨r, rfl⟩, hb⟩
    exact ⟨iff_of_true ⟨r, rfl⟩ ⟨o, rfl⟩, hb⟩
  | error e =>
    have hnone : ∀ x : Except Fault (Option Registration), (∀ r, x ≠ .ok (some r)) →
        ((∃ r, x = .ok (some r)) ↔ ∃ o : Outline, (Except.error e : Except Fault Outline) = .ok o) :=
      fun x hx ↦ iff_of_false (fun ⟨r, hr⟩ ↦ hx r hr) (by simp)
    cases e with
    | source path why =>
      refine ends_bind.mpr (ends_note_surroundings.mono ?_)
      rintro x b ⟨rfl, hgraph, hsame⟩
      exact ⟨hnone _ (by simp), .of_aside ha hgraph hsame⟩
    | _ => exact ⟨hnone _ (by simp), .of_aside ha rfl ⟨rfl, rfl⟩⟩

/-- Whatever goes wrong with a file of a directory, the directory goes on. -/
theorem ends_registerListed_surroundings (henriches : rules.enriches = true)
    (ha : a.graph.Textual digest) (path : String) (version : Except Fault Outline) :
    (registerListed rules path version).Ends (Surroundings.Answers digest permits)
      (fun x b ↦ (∃ r, x = .ok r) ∧
        Enqueued digest permits rules.reparse (declaredIn version) a b) a := by
  refine ends_bind.mpr (ends_attempt.mpr
    ((ends_registerFile_surroundings henriches ha version).mono ?_))
  rintro (e | r) b ⟨-, hb⟩
  · refine ends_bind.mpr (ends_note_surroundings.mono ?_)
    rintro x c ⟨rfl, hgraph, hsame⟩
    have hall := hb.trans (.of_aside hb.textual hgraph hsame)
    rw [List.append_nil] at hall
    exact ⟨⟨none, rfl⟩, hall⟩
  · exact ⟨⟨r, rfl⟩, hb⟩

/-- The functions that the files of a directory declare, in order. -/
def declaredAmong (files : List (String × Except Fault Outline)) : List Function :=
  files.flatMap fun f ↦ declaredIn f.2

theorem ends_registerAll_surroundings (henriches : rules.enriches = true)
    (ha : a.graph.Textual digest) (files : List (String × Except Fault Outline)) :
    (registerAll rules files).Ends (Surroundings.Answers digest permits)
      (fun x b ↦ (∃ rs, x = .ok rs) ∧
        Enqueued digest permits rules.reparse (declaredAmong files) a b) a := by
  induction files generalizing a with
  | nil => exact ⟨⟨[], rfl⟩, .of_aside ha rfl ⟨rfl, rfl⟩⟩
  | cons file files ih =>
    obtain ⟨path, version⟩ := file
    refine ends_bind.mpr ((ends_registerListed_surroundings henriches ha path version).mono ?_)
    rintro x b ⟨⟨r, rfl⟩, hfirst⟩
    refine ends_bind.mpr ((ih hfirst.textual).mono ?_)
    rintro y c ⟨⟨rs, rfl⟩, hrest⟩
    exact ⟨⟨_, rfl⟩, hfirst.trans hrest⟩

/-! ## Trees -/

theorem ends_reportLarge_surroundings {findings : List Finding} :
    (reportLarge findings).Ends (Surroundings.Answers digest permits) (fun x b ↦ x = .ok () ∧
      b.graph = a.graph ∧ b.queue = a.queue ∧ deeds b.log = deeds a.log) a := by
  induction findings generalizing a with
  | nil => exact ⟨rfl, rfl, rfl, rfl⟩
  | cons finding findings ih =>
    cases finding with
    | source path => exact ih
    | tooLarge path =>
      refine ends_bind.mpr (ends_note_surroundings.mono ?_)
      rintro x b ⟨rfl, hgraph, hqueue, hdeeds⟩
      refine ih.mono ?_
      rintro y c ⟨rfl, hgraph', hqueue', hdeeds'⟩
      exact ⟨rfl, hgraph'.trans hgraph, hqueue'.trans hqueue, hdeeds'.trans hdeeds⟩

/-! ## A file on its own -/

/-- The rules of a lone visit, but functions are queued. -/
def queueingRules : IndexRules :=
  { (loneVisit "").rules with registration := ⟨false, true, false⟩ }

end Indexing

end CodeAtlas
