import CodeAtlas.Proofs.Graph.Canonical
import CodeAtlas.Proofs.Graph.PlainData
import CodeAtlas.Proofs.Indexing.Interleaving
import CodeAtlas.Proofs.Program.Reaching
import CodeAtlas.Proofs.Query.Elements

/-!
# Callers and callees

The context of a function is read from the calls at the node, those that leave it and those that
arrive. An element of the context is kept once, so a function that is called twice would be listed
once, and where it is listed would not tell when the second call was stored.

This does not happen. The writer stores calls without properties, and a relationship is settled by
its type, its ends and its properties, so there is at most one call from one function to another
(`Graph.SimpleCalls`). The callees of a function are then the far ends of the calls that leave it,
one for each call and in the order of the calls, its callers are those of the calls that arrive, and
being a callee is the converse of being a caller.

Nothing is assumed of the digest, nor of the data that the writer is given.
-/

namespace CodeAtlas

/-! ## Calls of the writer -/

/-- If the request adds a call, it adds one without properties. -/
def Request.AddsPlainCalls : Request → Prop
  | mergeRelationship type _ _ _ _ attrs => type = Graph.calls → attrs.getD [] = []
  | _ => True

namespace Indexing

open CodeAtlas.Graph Program
open Syntax (Import)

/-- A call of the writer. What it takes from the graph may be any data. -/
inductive WriterCall where
  | mergeFile (path : String)
  | mergeFunction (name path : String)
  | mergeImport (source target clause : String)
  | mergeCall (callerName callerPath calleeName : String) (calleePath : Datum)
  | deleteImport (source : String) (target clause : Datum)
  | deleteCall (callerName callerPath : String) (calleeName calleePath : Datum)
  | syncImports (path : String) (imports : List Import)

/-- What the call does. What it returns is not looked at. -/
def WriterCall.program : WriterCall → Program Unit
  | mergeFile path => (fun _ ↦ ()) <$> Indexing.mergeFile path
  | mergeFunction name path => (fun _ ↦ ()) <$> Indexing.mergeFunction name path
  | mergeImport source target clause => (fun _ ↦ ()) <$> Indexing.mergeImport source target clause
  | mergeCall callerName callerPath calleeName calleePath =>
    (fun _ ↦ ()) <$> Indexing.mergeCall callerName callerPath calleeName calleePath
  | deleteImport source target clause => (fun _ ↦ ()) <$> Indexing.deleteImport source target clause
  | deleteCall callerName callerPath calleeName calleePath =>
    (fun _ ↦ ()) <$> Indexing.deleteCall callerName callerPath calleeName calleePath
  | syncImports path imports => (fun _ ↦ ()) <$> Indexing.syncImports path imports

/-- The program adds calls without properties only, whatever the replies. -/
abbrev AsksPlainCalls {α : Type} (p : Program α) : Prop :=
  p.Asks Request.AddsPlainCalls (fun _ _ ↦ True) fun _ ↦ True

private theorem asksPlain_orRefused {α : Type} {p : Program α} {message : Fault → String}
    {substitute : α} (hp : AsksPlainCalls p) : AsksPlainCalls (orRefused p message substitute) :=
  asks_orRefused (fun _ ↦ trivial) hp trivial

private theorem asksPlain_request {r : Request} (hr : r.AddsPlainCalls) :
    AsksPlainCalls (request r) :=
  (asks_request hr).mono fun _ _ ↦ trivial

theorem asksPlain_mergeImport (source target clause : String) :
    AsksPlainCalls (mergeImport source target clause) := by
  have hother : importsFrom ≠ calls := by decide
  refine asksPlain_orRefused ((asksPlain_request ?_).bind fun _ _ ↦ asks_pure trivial)
  exact fun h ↦ absurd h hother

theorem asksPlain_deleteImport (source : String) (target clause : Datum) :
    AsksPlainCalls (deleteImport source target clause) :=
  asksPlain_orRefused (asksPlain_request trivial)

theorem asksPlain_syncImports (path : String) (imports : List Import) :
    AsksPlainCalls (syncImports path imports) := by
  have hmerge : ∀ imports, AsksPlainCalls (mergeImports path imports) := by
    intro imports
    induction imports with
    | nil => exact asks_pure trivial
    | cons i imports ih =>
      exact (asksPlain_mergeImport path i.source i.clause).bind fun _ _ ↦
        ih.bind fun _ _ ↦ asks_pure trivial
  have hfind : AsksPlainCalls (request
      (.findRelationships importsFrom fileLabel (fileKey (.text path)) none)) :=
    asksPlain_request trivial
  refine (hmerge imports).bind fun merged _ ↦ hfind.attempt.bind fun found _ ↦ ?_
  cases found with
  | ok existing =>
    refine Asks.bind (Q := fun _ ↦ True) ?_ fun _ _ ↦ asks_pure trivial
    exact (deletesUnwanted_imports path _).asks fun e _ ↦ asksPlain_deleteImport path _ _
  | error e =>
    cases e with
    | graphQuery m c =>
      exact (asksPlain_request (r := .note _) trivial).bind fun _ _ ↦ asks_pure trivial
    | _ => exact asks_fail

theorem WriterCall.asksPlain (c : WriterCall) : AsksPlainCalls c.program := by
  cases c with
  | mergeFile path =>
    exact (asksPlain_orRefused
      ((asksPlain_request (r := .mergeNode _ _) trivial).map fun _ _ ↦ trivial)).map fun _ _ ↦ trivial
  | mergeFunction name path =>
    exact (asksPlain_orRefused
      ((asksPlain_request (r := .mergeNode _ _) trivial).map fun _ _ ↦ trivial)).map fun _ _ ↦ trivial
  | mergeImport source target clause =>
    exact (asksPlain_mergeImport source target clause).map fun _ _ ↦ trivial
  | mergeCall callerName callerPath calleeName calleePath =>
    refine (asksPlain_orRefused ((asksPlain_request ?_).bind fun _ _ ↦ asks_pure trivial)).map
      fun _ _ ↦ trivial
    exact fun _ ↦ rfl
  | deleteImport source target clause =>
    exact (asksPlain_deleteImport source target clause).map fun _ _ ↦ trivial
  | deleteCall callerName callerPath calleeName calleePath =>
    exact (asksPlain_orRefused
      (asksPlain_request (r := .deleteRelationship _ _ _ _ _ _) trivial)).map fun _ _ ↦ trivial
  | syncImports path imports => exact (asksPlain_syncImports path imports).map fun _ _ ↦ trivial

end Indexing

/-! ## One call from one function to another -/

namespace Graph

variable {digest : Digest} {g h : Graph}

/-- The calls that leave the node with an id, in the order in which they are stored. -/
def callsFrom (g : Graph) (id : String) : List Relationship :=
  g.relationships.filter fun r ↦ r.type == calls && r.sourceId == id

/-- The calls that arrive at the node with an id, in the order in which they are stored. -/
def callsTo (g : Graph) (id : String) : List Relationship :=
  g.relationships.filter fun r ↦ r.type == calls && r.targetId == id

theorem mem_callsFrom {id : String} {r : Relationship} :
    r ∈ g.callsFrom id ↔ r ∈ g.relationships ∧ r.type = calls ∧ r.sourceId = id := by
  rw [callsFrom, List.mem_filter, Bool.and_eq_true, beq_iff_eq, beq_iff_eq]

theorem mem_callsTo {id : String} {r : Relationship} :
    r ∈ g.callsTo id ↔ r ∈ g.relationships ∧ r.type = calls ∧ r.targetId = id := by
  rw [callsTo, List.mem_filter, Bool.and_eq_true, beq_iff_eq, beq_iff_eq]

/-- The graph is in order, and its calls have no properties. -/
structure SimpleCalls (digest : Digest) (g : Graph) : Prop where
  consistent : g.Consistent digest fun _ ↦ True
  properties_eq_nil : ∀ r ∈ g.relationships, r.type = calls → r.properties = []

theorem simpleCalls_empty : Graph.empty.SimpleCalls digest :=
  ⟨consistent_empty, fun _ h ↦ absurd h List.not_mem_nil⟩

theorem relationships_mergeRelationship_cases (digest : Digest) (g : Graph)
    (type fromLabel : String) (fromKey : Props) (toLabel : String) (toKey attrs : Props) :
    (g.mergeRelationship digest type fromLabel fromKey toLabel toKey attrs).relationships
        = g.relationships ∨
      (g.mergeRelationship digest type fromLabel fromKey toLabel toKey attrs).relationships
        = g.relationships ++ [keyRelationship digest type fromLabel fromKey toLabel toKey attrs] := by
  rw [mergeRelationship, addRelationship]
  split
  · exact Or.inl (by simp only [relationships_mergeNode])
  · exact Or.inr (by simp only [relationships_mergeNode])

/-- **The order of relationships is that of their insertion.** A request adds at most one, at the
end, and the others stay where they are unless they are removed. -/
theorem relationships_of_answers {r : Request} {x : Except Fault r.Reply}
    (hx : Answers digest r g x h) : h.relationships.Sublist g.relationships ∨
      ∃ type fromLabel fromKey toLabel toKey attrs,
        r = .mergeRelationship type fromLabel fromKey toLabel toKey attrs ∧
        h.relationships = g.relationships ++
          [keyRelationship digest type fromLabel fromKey toLabel toKey (attrs.getD [])] := by
  have hsame : ∀ {k : Graph}, k.relationships = g.relationships →
      k.relationships.Sublist g.relationships := fun hk ↦ hk ▸ List.Sublist.refl _
  cases r with
  | mergeNode label key =>
    simp only [Answers, answer?] at hx
    split at hx
    · exact Or.inl (hsame (hx.2 ▸ relationships_mergeNode g label key))
    · exact Or.inl (hsame (hx.2 ▸ rfl))
  | mergeRelationship type fromLabel fromKey toLabel toKey attrs =>
    simp only [Answers, answer?] at hx
    split_ifs at hx
    · rcases relationships_mergeRelationship_cases digest g type fromLabel fromKey toLabel toKey
        (attrs.getD []) with hold | hnew
      · exact Or.inl (hsame (hx.2 ▸ hold))
      · exact Or.inr ⟨_, _, _, _, _, _, rfl, hx.2 ▸ hnew⟩
    · refine Or.inl (hsame ?_)
      rw [hx.2, relationships_mergeNode, relationships_mergeNode]
    · exact Or.inl (hsame (hx.2 ▸ relationships_mergeNode g fromLabel fromKey))
    · exact Or.inl (hsame (hx.2 ▸ rfl))
  | findRelationships type fromLabel fromKey attrs =>
    simp only [Answers, answer?] at hx
    split at hx <;> exact Or.inl (hsame (hx.2 ▸ rfl))
  | deleteRelationship type fromLabel fromKey toLabel toKey attrs =>
    simp only [Answers, answer?] at hx
    split at hx
    · rw [hx.2]
      exact Or.inl List.filter_sublist
    · exact Or.inl (hsame (hx.2 ▸ rfl))
  | _ => exact Or.inl (hsame (hx.2 ▸ rfl))

namespace SimpleCalls

theorem answers (hg : g.SimpleCalls digest) {r : Request} (hr : r.AddsPlainCalls)
    {x : Except Fault r.Reply} (hx : Answers digest r g x h) : h.SimpleCalls digest where
  consistent := by
    have hanswer := hx
    rw [Answers] at hanswer
    split at hanswer
    · rename_i heq
      exact hanswer.2 ▸ hg.consistent.answer? heq
    · exact hanswer.2 ▸ hg.consistent
  properties_eq_nil := by
    obtain hsub | ⟨type, fromLabel, fromKey, toLabel, toKey, attrs, rfl, hadded⟩ :=
      relationships_of_answers hx
    · exact fun q hq ↦ hg.properties_eq_nil q (hsub.subset hq)
    · intro q hq hcall
      rw [hadded, List.mem_append, List.mem_singleton] at hq
      rcases hq with hq | rfl
      · exact hg.properties_eq_nil q hq hcall
      · exact hr hcall

/-- There is one call at most from one function to another. -/
theorem call_ext (hg : g.SimpleCalls digest) {r q : Relationship} (hr : r ∈ g.relationships)
    (hq : q ∈ g.relationships) (hrcall : r.type = calls) (hqcall : q.type = calls)
    (hsource : r.sourceId = q.sourceId) (htarget : r.targetId = q.targetId) : r = q := by
  refine hg.consistent.relationship_ext hr hq (hrcall.trans hqcall.symm) hsource htarget ?_
  rw [hg.properties_eq_nil r hr hrcall, hg.properties_eq_nil q hq hqcall]

theorem nodup_relationships (hg : g.SimpleCalls digest) : g.relationships.Nodup :=
  List.Nodup.of_map _ hg.consistent.relationships_nodup

theorem nodup_targets (hg : g.SimpleCalls digest) (id : String) :
    ((g.callsFrom id).map Relationship.targetId).Nodup := by
  refine List.Nodup.map_on ?_ (hg.nodup_relationships.filter _)
  intro r hr q hq htarget
  obtain ⟨hr, hrcall, hrsource⟩ := mem_callsFrom.mp hr
  obtain ⟨hq, hqcall, hqsource⟩ := mem_callsFrom.mp hq
  exact hg.call_ext hr hq hrcall hqcall (hrsource.trans hqsource.symm) htarget

theorem nodup_sources (hg : g.SimpleCalls digest) (id : String) :
    ((g.callsTo id).map Relationship.sourceId).Nodup := by
  refine List.Nodup.map_on ?_ (hg.nodup_relationships.filter _)
  intro r hr q hq hsource
  obtain ⟨hr, hrcall, hrtarget⟩ := mem_callsTo.mp hr
  obtain ⟨hq, hqcall, hqtarget⟩ := mem_callsTo.mp hq
  exact hg.call_ext hr hq hrcall hqcall hsource (hrtarget.trans hqtarget.symm)

end SimpleCalls

/-! ## The context that is found -/

theorem node?_of_endNode {id : String} {n : Node} (h : g.endNode id = .ok n) :
    g.node? id = some n := by
  rw [endNode] at h
  split at h
  · rename_i hnode
    exact hnode.trans (congrArg some (Except.ok.inj h))
  · cases h

/-- The records of calls name the nodes that are stored at the ends of the calls. -/
theorem ends_of_mem_expandCalls {id : String} {found : List CallRecord}
    (hfound : g.expandCalls id = .ok found) {c : CallRecord} (hc : c ∈ found) :
    g.node? c.relationship.sourceId = some c.source ∧
      g.node? c.relationship.targetId = some c.target := by
  obtain ⟨i, hi, rfl⟩ := List.mem_iff_getElem.mp hc
  have hall := mapM_eq_ok.mp hfound
  have hrecord := hall.get (hall.length_eq ▸ hi) hi
  obtain ⟨source, hsource, hrest⟩ := bind_eq_ok.mp hrecord
  obtain ⟨target, htarget, hdone⟩ := bind_eq_ok.mp hrest
  have heq : found[i] = ⟨source, _, target⟩ := (Except.ok.inj hdone).symm
  rw [heq]
  exact ⟨node?_of_endNode hsource, node?_of_endNode htarget⟩

/-- What is listed at one end of the records that have a function at the other end. -/
theorem map_id_far {found : List CallRecord} {near far : CallRecord → Node}
    {nearId farId : Relationship → String} (hnear : ∀ c ∈ found, (near c).id = nearId c.relationship)
    (hfar : ∀ c ∈ found, (far c).id = farId c.relationship) (id : String) :
    ((found.filter fun c ↦ (near c).id == id).map far).map Node.id
      = ((found.map CallRecord.relationship).filter fun r ↦ nearId r == id).map farId := by
  rw [List.filter_map, List.map_map, List.map_map]
  have hfilter : (found.filter fun c ↦ (near c).id == id)
      = found.filter ((fun r ↦ nearId r == id) ∘ CallRecord.relationship) :=
    List.filter_congr fun c hc ↦ by rw [hnear c hc, Function.comp_apply]
  rw [hfilter]
  exact List.map_congr_left fun c hc ↦ hfar c (List.mem_of_mem_filter hc)

/-- Two lists of functions as the context of a function: its callees are where the calls that leave
it lead to, one for each call, and its callers are where the calls come from that arrive. -/
structure IsContext (g : Graph) (id : String) (context : CallContext) : Prop where
  callees : context.callees.map Node.id = (g.callsFrom id).map Relationship.targetId
  callers : context.callers.map Node.id = (g.callsTo id).map Relationship.sourceId
  stored : ∀ n ∈ context.callees ++ context.callers, g.node? n.id = some n

theorem SimpleCalls.isContext_ofRecords (hg : g.SimpleCalls digest) {id : String}
    {found : List CallRecord} (hfound : g.expandCalls id = .ok found) :
    g.IsContext id (CallContext.ofRecords id found) := by
  obtain ⟨found', hfound', hrelationships⟩ := hg.consistent.expandCalls_eq id
  obtain rfl : found' = found := Except.ok.inj (hfound'.symm.trans hfound)
  have hends {c : CallRecord} (hc : c ∈ found') := ends_of_mem_expandCalls hfound hc
  have hsource : ∀ c ∈ found', c.source.id = c.relationship.sourceId :=
    fun c hc ↦ (mem_of_node? (hends hc).1).2
  have htarget : ∀ c ∈ found', c.target.id = c.relationship.targetId :=
    fun c hc ↦ (mem_of_node? (hends hc).2).2
  -- Of the calls at the node, those that leave it are all that leave it.
  have hfrom : (found'.map CallRecord.relationship).filter (fun r ↦ r.sourceId == id)
      = g.callsFrom id := by
    rw [hrelationships, List.filter_filter, callsFrom]
    exact List.filter_congr fun r _ ↦ by cases r.type == calls <;> cases r.sourceId == id <;> rfl
  have hto : (found'.map CallRecord.relationship).filter (fun r ↦ r.targetId == id)
      = g.callsTo id := by
    rw [hrelationships, List.filter_filter, callsTo]
    exact List.filter_congr fun r _ ↦ by
      cases r.type == calls <;> cases r.sourceId == id <;> cases r.targetId == id <;> rfl
  have hcallees := hfrom ▸ map_id_far hsource htarget id
  have hcallers := hto ▸ map_id_far htarget hsource id
  have hcalleesEq : (CallContext.ofRecords id found').callees
      = (found'.filter fun c ↦ c.source.id == id).map CallRecord.target :=
    Subgraph.nodes_ofValues_node (hcallees ▸ hg.nodup_targets id)
  have hcallersEq : (CallContext.ofRecords id found').callers
      = (found'.filter fun c ↦ c.target.id == id).map CallRecord.source :=
    Subgraph.nodes_ofValues_node (hcallers ▸ hg.nodup_sources id)
  refine ⟨hcalleesEq ▸ hcallees, hcallersEq ▸ hcallers, ?_⟩
  rw [hcalleesEq, hcallersEq, List.forall_mem_append, List.forall_mem_map, List.forall_mem_map]
  constructor
  · intro c hc
    have hc := List.mem_of_mem_filter hc
    exact (htarget c hc).symm ▸ (hends hc).2
  · intro c hc
    have hc := List.mem_of_mem_filter hc
    exact (hsource c hc).symm ▸ (hends hc).1

namespace IsContext

variable {id : String} {context : CallContext}

theorem mem_callees (h : g.IsContext id context) (id' : String) : id' ∈ context.callees.map Node.id ↔
    ∃ r ∈ g.relationships, r.type = calls ∧ r.sourceId = id ∧ r.targetId = id' := by
  rw [h.callees, List.mem_map]
  simp only [mem_callsFrom, and_assoc]

theorem mem_callers (h : g.IsContext id context) (id' : String) : id' ∈ context.callers.map Node.id ↔
    ∃ r ∈ g.relationships, r.type = calls ∧ r.sourceId = id' ∧ r.targetId = id := by
  rw [h.callers, List.mem_map]
  simp only [mem_callsTo, and_assoc]
  refine exists_congr fun r ↦ and_congr_right fun _ ↦ and_congr_right fun _ ↦ and_comm

/-- A call leads from a node to a node, so where there is no node there is no call. -/
theorem eq_nil (h : g.IsContext id context) (hg : g.Consistent digest fun _ ↦ True)
    (hid : g.node? id = none) : context = ⟨[], []⟩ := by
  have hcallees : context.callees = [] := by
    rw [← List.map_eq_nil_iff (f := Node.id), List.eq_nil_iff_forall_not_mem]
    intro id' hmem
    obtain ⟨r, hr, -, rfl, -⟩ := (h.mem_callees id').mp hmem
    obtain ⟨n, hn⟩ := hg.source_mem r hr
    exact nomatch hid.symm.trans hn
  have hcallers : context.callers = [] := by
    rw [← List.map_eq_nil_iff (f := Node.id), List.eq_nil_iff_forall_not_mem]
    intro id' hmem
    obtain ⟨r, hr, -, -, rfl⟩ := (h.mem_callers id').mp hmem
    obtain ⟨n, hn⟩ := hg.target_mem r hr
    exact nomatch hid.symm.trans hn
  cases context
  rw [CallContext.mk.injEq]
  exact ⟨hcallers, hcallees⟩

end IsContext

end Graph

/-! ## Contexts in a store -/

namespace CallContext

open Graph Indexing Program

variable {σ : Type} {digest : Digest} {store : σ → Store} {respond : Responder σ} {s t : σ}

theorem exists_simpleCalls (hserves : Serves digest store respond) (hs : (store s).Holds .empty)
    {history : List WriterCall} {rs : List Request} {xs : List (Except Fault Unit)}
    (hrun : Interleaves respond (history.map WriterCall.program) s rs xs t) :
    ∃ g, (store t).Holds g ∧ g.SimpleCalls digest := by
  have hplain : ∀ r ∈ rs, r.AddsPlainCalls :=
    hrun.forall_of_asks (List.forall_mem_map.mpr fun c _ ↦ c.asksPlain)
  rw [hrun.eq_after]
  exact hserves.exists_after (fun r hr g x h hg hx ↦ hg.answers (hplain r hr) hx)
    (fun _ _ _ _ ↦ rfl) hs simpleCalls_empty

theorem exists_run_find (hserves : Serves digest store respond) {g : Graph}
    (hs : (store s).Holds g) (hg : g.SimpleCalls digest) (id : String) :
    ∃ context, ((find id).run respond s).1 = .ok context ∧ g.IsContext id context := by
  obtain ⟨found, hfound, -⟩ := hg.consistent.expandCalls_eq id
  obtain ⟨m, hm⟩ := hs
  have hstore : (store s).expandCalls id = .ok found := by
    rw [Store.expandCalls, Store.look, hm]
    exact hfound
  have hanswer : respond (.expandCalls id) s = (.ok found, (respond (.expandCalls id) s).2) :=
    Prod.ext ((hserves.graph (.expandCalls id) s _ _ rfl).1.trans hstore) rfl
  refine ⟨ofRecords id found, ?_, hg.isContext_ofRecords hfound⟩
  rw [find, ((reaches_request hanswer).bind _).run]
  rfl

/-- **Callers and callees are dual.** After any calls of the writer on an empty store, whatever turns
they take, the context of every function is found, and for all ids:

* a function is among the callees of another if and only if the other is among its callers, and this
  is so if and only if a call from the one to the other is stored;
* the callees are the far ends of the calls that leave the function, one for each call and in the
  order in which the calls were stored, the callers those of the calls that arrive, and the nodes
  listed are the ones that are stored;
* nothing is listed twice;
* a function that calls itself is in both of its lists;
* where there is no node, both lists are empty. -/
theorem mem_callees_iff_mem_callers (hserves : Serves digest store respond)
    (hs : (store s).Holds .empty) {history : List WriterCall} {rs : List Request}
    {xs : List (Except Fault Unit)}
    (hrun : Interleaves respond (history.map WriterCall.program) s rs xs t) :
    ∃ g, (store t).Holds g ∧ ∃ context : String → CallContext,
      (∀ f, ((find f).run respond t).1 = .ok (context f)) ∧
      (∀ f h, (h ∈ (context f).callees.map Node.id ↔ f ∈ (context h).callers.map Node.id) ∧
        (h ∈ (context f).callees.map Node.id ↔
          ∃ r ∈ g.relationships, r.type = calls ∧ r.sourceId = f ∧ r.targetId = h)) ∧
      (∀ f, (context f).callees.map Node.id = (g.callsFrom f).map Relationship.targetId ∧
        (context f).callers.map Node.id = (g.callsTo f).map Relationship.sourceId ∧
        ∀ n ∈ (context f).callees ++ (context f).callers, g.node? n.id = some n) ∧
      (∀ f, ((context f).callees.map Node.id).Nodup ∧ ((context f).callers.map Node.id).Nodup) ∧
      (∀ f, ∀ r ∈ g.relationships, r.type = calls → r.sourceId = f → r.targetId = f →
        f ∈ (context f).callees.map Node.id ∧ f ∈ (context f).callers.map Node.id) ∧
      ∀ f, g.node? f = none → context f = ⟨[], []⟩ := by
  obtain ⟨g, ht, hg⟩ := exists_simpleCalls hserves hs hrun
  choose context hcontext using exists_run_find hserves ht hg
  have hcallees (f h : String) := (hcontext f).2.mem_callees h
  have hcallers (f h : String) := (hcontext h).2.mem_callers f
  refine ⟨g, ht, context, fun f ↦ (hcontext f).1, fun f h ↦ ⟨?_, hcallees f h⟩, fun f ↦ ?_,
    fun f ↦ ⟨?_, ?_⟩, fun f r hr hcall hsource htarget ↦ ⟨?_, ?_⟩, fun f hf ↦ ?_⟩
  · exact (hcallees f h).trans (hcallers f h).symm
  · exact ⟨(hcontext f).2.callees, (hcontext f).2.callers, (hcontext f).2.stored⟩
  · exact (hcontext f).2.callees ▸ hg.nodup_targets f
  · exact (hcontext f).2.callers ▸ hg.nodup_sources f
  · exact (hcallees f f).mpr ⟨r, hr, hcall, hsource, htarget⟩
  · exact (hcallers f f).mpr ⟨r, hr, hcall, hsource, htarget⟩
  · exact (hcontext f).2.eq_nil hg.consistent hf

/-- A function that calls itself, and another one that it calls. -/
def recursive : List WriterCall :=
  [.mergeCall "walk" "/a.ts" "visit" (.text "/b.ts"), .mergeCall "walk" "/a.ts" "walk" (.text "/a.ts")]

theorem mem_callees_iff_mem_callers_recursive :
    ∃ g, (Rehearsal.store (runAll Rehearsal.serve (recursive.map WriterCall.program)
        (Rehearsal.new {} .empty)).2).Holds g ∧ ∃ context : String → CallContext,
      (∀ f h, (h ∈ (context f).callees.map Node.id ↔ f ∈ (context h).callers.map Node.id)) ∧
      ∃ f, (context f).callees.length = 2 ∧ f ∈ (context f).callees.map Node.id ∧
        f ∈ (context f).callers.map Node.id := by
  obtain ⟨g, hg, context, -, hdual, hlists, -, hself, -⟩ := mem_callees_iff_mem_callers
    Rehearsal.serves Store.holds_empty (interleaves_runAll Rehearsal.serve
      (recursive.map WriterCall.program) (Rehearsal.new {} .empty))
  have hrun : ((runAll Rehearsal.serve (recursive.map WriterCall.program)
      (Rehearsal.new {} .empty)).2.store.look (fun g ↦ .ok (g.relationships.any fun r ↦
        r.type == calls && r.sourceId == r.targetId && (g.callsFrom r.sourceId).length == 2))
      fun _ ↦ .ok false).toOption = some true := by
    decide +kernel
  obtain ⟨g', hg', hfound⟩ := Store.exists_holds_of_look hrun
  obtain rfl := hg.unique hg'
  obtain ⟨r, hr, hcall⟩ := List.any_eq_true.mp (Option.some.inj hfound)
  rw [Bool.and_eq_true, Bool.and_eq_true, beq_iff_eq, beq_iff_eq, beq_iff_eq] at hcall
  obtain ⟨⟨htype, hends⟩, hlength⟩ := hcall
  refine ⟨g, hg, context, fun f h ↦ (hdual f h).1, r.sourceId, ?_,
    hself r.sourceId r hr htype rfl hends.symm⟩
  rw [← List.length_map (f := Node.id), (hlists r.sourceId).1, List.length_map, hlength]

end CallContext

end CodeAtlas
