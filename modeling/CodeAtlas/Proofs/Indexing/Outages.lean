import CodeAtlas.Proofs.Graph.Reached
import CodeAtlas.Proofs.Indexing.CallHistory

/-!
# What failed lookups cost

If the calls of a function cannot be listed, they are left as they are. One might expect the same of
the lookups for the single callees, but there a failure is taken for an answer: the name counts as
not imported, its call is not wanted, and once the calls are listed it is deleted.

So an edge is lost where a declaration of its caller lists the edges and has not linked this one,
all lookups for its callee having failed. A later declaration of the same function may link the call
again, which brings back an edge without properties. These are the only losses.
-/

namespace CodeAtlas.Indexing

open CodeAtlas.Graph Program
open Syntax (Function)

/-! ## Steps that add and drop -/

section Kept

variable {ε : Type} {adds drops : ε → Prop} {P : Prop} {e : ε} {es : List ε}

/-- Whenever something is dropped, it is added again later, which takes `P`. -/
def Kept (adds drops : ε → Prop) (P : Prop) (es : List ε) : Prop :=
  ∀ before e after, es = before ++ e :: after → drops e → P ∧ ∃ d ∈ after, adds d

theorem kept_nil : Kept adds drops P [] :=
  fun _ _ _ h ↦ absurd h.symm (List.append_ne_nil_of_right_ne_nil _ (List.cons_ne_nil _ _))

theorem kept_cons :
    Kept adds drops P (e :: es) ↔ (drops e → P ∧ ∃ d ∈ es, adds d) ∧ Kept adds drops P es := by
  constructor
  · intro h
    refine ⟨h [] e es rfl, fun before d after hsplit ↦ h (e :: before) d after ?_⟩
    rw [hsplit, List.cons_append]
  · rintro ⟨hhead, htail⟩ before d after hsplit
    rcases List.cons_eq_append_iff.mp hsplit with ⟨-, heq⟩ | ⟨before', -, heq⟩
    · obtain ⟨rfl, rfl⟩ := List.cons.inj heq
      exact hhead
    · exact htail before' d after heq

theorem Kept.congr {adds' drops' : ε → Prop} (hadds : ∀ e ∈ es, adds e ↔ adds' e)
    (hdrops : ∀ e ∈ es, drops e ↔ drops' e) : Kept adds drops P es ↔ Kept adds' drops' P es := by
  refine forall₄_congr fun before e after hsplit ↦ imp_congr (hdrops e ?_) (and_congr_right fun _ ↦
    exists_congr fun d ↦ and_congr_right fun hmem ↦ hadds d ?_)
  · rw [hsplit]
    exact List.mem_append_right _ List.mem_cons_self
  · rw [hsplit]
    exact List.mem_append_right _ (List.mem_cons_of_mem _ hmem)

end Kept

/-! ## Declarations and their lookups -/

/-- The declarations of a file with the numbers of their first lookups. -/
def numbered : List Function → Nat → List (Function × Nat)
  | [], _ => []
  | f :: rest, n => (f, n) :: numbered rest (n + f.calls.length + 1)

/-- The declaration is one of the function, and it links the call. -/
def Links (linkLocal : Bool) (localNames : List String)
    (imported : String → String → Option Datum) (outages : Outages)
    (name path callee target : String) (e : Function × Nat) : Prop :=
  (e.1.name = name ∧ e.1.path = path) ∧ (callee, .text target) ∈
    linkedCalls linkLocal e.1 localNames (imported e.1.path) outages e.1.calls e.2

/-- The declaration is one of the function. It can list the calls and has not linked this one. -/
def Drops (linkLocal : Bool) (localNames : List String)
    (imported : String → String → Option Datum) (outages : Outages)
    (name path callee target : String) (e : Function × Nat) : Prop :=
  (e.1.name = name ∧ e.1.path = path) ∧ outages (e.2 + e.1.calls.length) = none ∧
    (callee, .text target) ∉
      linkedCalls linkLocal e.1 localNames (imported e.1.path) outages e.1.calls e.2

variable {digest : Digest} {g : Graph} {linkLocal : Bool} {f : Function} {localNames : List String}
  {imported : String → String → Option Datum} {outages : Outages} {n : Nat} {r : Relationship}
  {name path callee target : String}

section Injective

variable (hd : Function.Injective digest)

include hd

theorem isUnwantedCall_iff {wanted : List (String × Datum)} (htype : r.type = calls)
    (hsource : r.sourceId = functionId digest name path)
    (htarget : r.targetId = functionId digest callee target) :
    IsUnwantedCall digest f wanted r ↔
      (f.name = name ∧ f.path = path) ∧ (callee, .text target) ∉ wanted := by
  rw [IsUnwantedCall, hsource, htarget, functionId_inj hd, eq_comm (a := name), eq_comm (a := path)]
  refine ⟨?_, fun h ↦ ⟨htype, h.1, callee, target, rfl, h.2⟩⟩
  rintro ⟨-, hf, c, q, heq, hnot⟩
  obtain ⟨rfl, rfl⟩ := (functionId_inj hd).mp heq
  exact ⟨hf, hnot⟩

/-- What a declaration does to a call. -/
theorem mem_resolved_call (hg : g.Textual digest) (himported : importedFrom digest g = imported)
    (htype : r.type = calls) (hsource : r.sourceId = functionId digest name path)
    (htarget : r.targetId = functionId digest callee target) :
    r ∈ (resolved digest linkLocal localNames imported outages f n g).relationships ↔
      ¬ Drops linkLocal localNames imported outages name path callee target (f, n) ∧
        (r ∈ g.relationships ∨ r = callRelationship digest name path callee target ∧
          Links linkLocal localNames imported outages name path callee target (f, n)) := by
  rw [mem_resolved hd hg himported, isUnwantedCall_iff hd htype hsource htarget, and_comm]
  refine and_congr ?_ (or_congr Iff.rfl ⟨?_, ?_⟩)
  · rw [Drops, Option.isSome_iff_ne_none]
    tauto
  · rintro ⟨c, q, hlinked, rfl⟩
    obtain ⟨rfl, rfl⟩ := (functionId_inj hd).mp hsource
    obtain ⟨rfl, rfl⟩ := (functionId_inj hd).mp htarget
    exact ⟨rfl, ⟨rfl, rfl⟩, hlinked⟩
  · rintro ⟨rfl, ⟨rfl, rfl⟩, hlinked⟩
    exact ⟨callee, target, hlinked, rfl⟩

/-- **What becomes of a call** when the declarations of a file are brought up to date one by one. -/
theorem mem_resolvedAll_iff (hg : g.Textual digest) (himported : importedFrom digest g = imported)
    (htype : r.type = calls) (hsource : r.sourceId = functionId digest name path)
    (htarget : r.targetId = functionId digest callee target) {functions : List Function} :
    r ∈ (resolvedAll digest linkLocal localNames imported outages functions n g).relationships ↔
      Kept (Links linkLocal localNames imported outages name path callee target)
        (Drops linkLocal localNames imported outages name path callee target)
        (r = callRelationship digest name path callee target) (numbered functions n) ∧
      (r ∈ g.relationships ∨ r = callRelationship digest name path callee target ∧
        ∃ e ∈ numbered functions n,
          Links linkLocal localNames imported outages name path callee target e) := by
  induction functions generalizing g n with
  | nil => simp [resolvedAll, numbered, kept_nil]
  | cons f functions ih =>
    -- The first declaration adds the call or drops it, but not both, and the others come later.
    have hexclusive : Links linkLocal localNames imported outages name path callee target (f, n) →
        ¬ Drops linkLocal localNames imported outages name path callee target (f, n) :=
      fun hlinks hdrops ↦ hdrops.2.2 hlinks.2
    rw [resolvedAll, ih (textual_resolved hg himported) (importedFrom_resolved hg himported),
      mem_resolved_call hd hg himported htype hsource htarget, numbered, kept_cons,
      List.exists_mem_cons_iff]
    tauto

/-- An edge that is not a call from one function to another stays. -/
theorem mem_resolvedAll_of_mem (hg : g.Textual digest) (himported : importedFrom digest g = imported)
    (hr : r ∈ g.relationships) (hnot : ∀ name path callee target,
      ¬ g.isCall name path callee target r) {functions : List Function} :
    r ∈ (resolvedAll digest linkLocal localNames imported outages functions n g).relationships := by
  have hshape : ∀ f wanted, ¬ IsUnwantedCall digest f wanted r := by
    rintro f wanted ⟨htype, hsource, c, q, htarget, -⟩
    exact hnot f.name f.path c q ((hg.isCall_iff hd hr).mpr ⟨htype, hsource, htarget⟩)
  clear hnot
  induction functions generalizing g n with
  | nil => exact hr
  | cons f functions ih =>
    refine ih (textual_resolved hg himported) (importedFrom_resolved hg himported) ?_
    exact (mem_resolved hd hg himported).mpr ⟨Or.inl hr, Or.inr (hshape f _)⟩

theorem eq_callRelationship_iff (hg : g.Textual digest) (hr : r ∈ g.relationships)
    (htype : r.type = calls) (hsource : r.sourceId = functionId digest name path)
    (htarget : r.targetId = functionId digest callee target) :
    r = callRelationship digest name path callee target ↔ r.properties = [] := by
  refine ⟨fun h ↦ h ▸ rfl, fun h ↦ ?_⟩
  refine hg.eq_keyRelationship hd (fun _ ↦ Datum.IsText.isScalar) hr (by simp) (by simp) ?_
  rw [hg.relationship_id r hr, htype, hsource, htarget, h]
  rfl

end Injective

/-! ## What it takes of the lookups -/

/-- The declaration is one of the function, and it links the call in spite of the outages: a lookup
for the callee does not fail, or the callee is a function of the same file and linked as such. -/
def Finds (linkLocal : Bool) (localNames : List String) (outages : Outages)
    (name path callee target : String) (e : Function × Nat) : Prop :=
  (e.1.name = name ∧ e.1.path = path) ∧ ∃ m, (callee, m) ∈ e.1.calls.zipIdx e.2 ∧
    (outages m = none ∨ (linkLocal && localNames.contains callee) ∧ target = path)

/-- The declaration is one of the function. It can list the calls and has not linked this one. -/
def Misses (linkLocal : Bool) (localNames : List String) (outages : Outages)
    (name path callee target : String) (e : Function × Nat) : Prop :=
  (e.1.name = name ∧ e.1.path = path) ∧ outages (e.2 + e.1.calls.length) = none ∧
    ¬ Finds linkLocal localNames outages name path callee target e

/-- If the call would be linked without outages, it is linked where it is found. -/
theorem links_iff_finds {e : Function × Nat}
    (htarget : targetPath linkLocal e.1 localNames callee (imported e.1.path callee)
      = some (.text target)) :
    Links linkLocal localNames imported outages name path callee target e ↔
      Finds linkLocal localNames outages name path callee target e := by
  refine and_congr_right fun hcaller ↦ ?_
  rw [mem_linkedCalls]
  refine exists_congr fun m ↦ and_congr_right fun _ ↦ ?_
  cases outages m with
  | none => exact iff_of_true htarget (Or.inl rfl)
  | some fault =>
    change targetPath linkLocal e.1 localNames callee none = _ ↔ _
    rw [targetPath, hcaller.2, or_iff_right (by simp)]
    split
    · rename_i hlocal
      rw [Option.some.injEq, Datum.text.injEq, eq_comm]
      exact (and_iff_right hlocal).symm
    · rename_i hlocal
      exact iff_of_false (by simp) fun h ↦ hlocal h.1

theorem targetPath_congr {f' : Function} (h : f.path = f'.path) {found : Option Datum} :
    targetPath linkLocal f localNames callee found
      = targetPath linkLocal f' localNames callee found := by
  cases found with
  | some d => rfl
  | none => rw [targetPath, targetPath, h]

/-- Of a call that is kept without outages, it is known where it leads. -/
theorem targetPath_of_kept {P : Prop} {es : List (Function × Nat)}
    (h : Kept (Links linkLocal localNames imported Outages.none name path callee target)
      (Drops linkLocal localNames imported Outages.none name path callee target) P es)
    {e : Function × Nat} (he : e ∈ es) (hcaller : e.1.name = name ∧ e.1.path = path) :
    targetPath linkLocal e.1 localNames callee (imported e.1.path callee) = some (.text target) := by
  -- A declaration that does not link the call drops it, so that a later one has to link it.
  have hlinks : ∃ d, Links linkLocal localNames imported Outages.none name path callee target d := by
    obtain ⟨before, after, hsplit⟩ := List.append_of_mem he
    by_cases hlinked : (callee, .text target) ∈ linkedCalls linkLocal e.1 localNames
        (imported e.1.path) Outages.none e.1.calls e.2
    · exact ⟨e, hcaller, hlinked⟩
    · obtain ⟨-, d, -, hd⟩ := h before e after hsplit ⟨hcaller, rfl, hlinked⟩
      exact ⟨d, hd⟩
  obtain ⟨d, hd, hlinked⟩ := hlinks
  obtain ⟨k, -, hk⟩ := mem_linkedCalls.mp hlinked
  rw [← targetPath_congr (hd.2.trans hcaller.2.symm), ← hd.2.trans hcaller.2.symm]
  exact hk

theorem kept_links_iff_kept_finds {P : Prop} {es : List (Function × Nat)}
    (h : Kept (Links linkLocal localNames imported Outages.none name path callee target)
      (Drops linkLocal localNames imported Outages.none name path callee target) P es) :
    Kept (Links linkLocal localNames imported outages name path callee target)
        (Drops linkLocal localNames imported outages name path callee target) P es ↔
      Kept (Finds linkLocal localNames outages name path callee target)
        (Misses linkLocal localNames outages name path callee target) P es := by
  have hiff : ∀ e ∈ es, e.1.name = name ∧ e.1.path = path →
      (Links linkLocal localNames imported outages name path callee target e ↔
        Finds linkLocal localNames outages name path callee target e) :=
    fun e he hcaller ↦ links_iff_finds (targetPath_of_kept h he hcaller)
  refine Kept.congr (fun e he ↦ ?_) fun e he ↦ ?_
  · exact ⟨fun hlinks ↦ (hiff e he hlinks.1).mp hlinks, fun hfinds ↦ (hiff e he hfinds.1).mpr hfinds⟩
  · refine and_congr_right fun hcaller ↦ and_congr_right fun _ ↦ not_congr ?_
    rw [← hiff e he hcaller, Links, and_iff_right hcaller]

/-! ## Runs with outages -/

section Runs

variable {σ : Type} {digest' : Digest} {store : σ → Store} {respond : Responder σ}

/-- What serves the store, and is cut off at times, answers as a graph does that is cut off then. -/
theorem answers_withOutages (hserves : Serves digest store respond) {r : Request}
    (hagree : ∀ t ∈ r.hashed digest, digest t = digest' t) {s : σ} (hs : (store s).Holds g) :
    ∃ h, ((store ((respond.withOutages outages) r (s, n)).2.1).Holds h.1 ∧
        ((respond.withOutages outages) r (s, n)).2.2 = h.2) ∧
      ((Answers digest').withOutages outages) r (g, n)
        ((respond.withOutages outages) r (s, n)).1 h := by
  obtain ⟨k, hk, hanswer⟩ := hserves.answers hagree hs
  cases hr : r.isLookup with
  | false =>
    refine ⟨(k, n), ?_, ?_⟩
    · simpa [Responder.withOutages, hr] using hk
    · simpa [Responder.withOutages, Answering.withOutages, hr] using hanswer
  | true =>
    cases hn : outages n with
    | none =>
      refine ⟨(k, n + 1), ?_, ?_⟩
      · simpa [Responder.withOutages, hr, hn] using hk
      · simpa [Responder.withOutages, Answering.withOutages, hr, hn] using hanswer
    | some fault =>
      refine ⟨(g, n + 1), ?_, ?_⟩
      · simpa [Responder.withOutages, hr, hn] using hs
      · simp [Responder.withOutages, Answering.withOutages, hr, hn]

/-- A file is brought up to date as it should, given which lookups fail. -/
theorem holds_resolvedAll_withOutages (hserves : Serves digest store respond) {s : σ}
    (hs : (store s).Holds g) (hg : g.Textual digest') {functions : List Function}
    (hagree : ∀ r ∈ (resolveFile linkLocal functions).trace (respond.withOutages outages) (s, n),
      ∀ t ∈ r.hashed digest, digest t = digest' t) :
    (store ((resolveFile linkLocal functions).run (respond.withOutages outages) (s, n)).2.1).Holds
      (resolvedAll digest' linkLocal (functions.map (·.name)) (importedFrom digest' g) outages
        functions n g) := by
  obtain ⟨m, hm⟩ := gives_resolveFunctions hg rfl linkLocal (functions.map (·.name)) outages
    functions n
  obtain ⟨k, ⟨hk, -⟩, -, rfl⟩ := Ends.run
    (fun (s : σ × ℕ) (k : Graph × ℕ) ↦ (store s.1).Holds k.1 ∧ s.2 = k.2) hm (s := (s, n))
    ⟨hs, rfl⟩ (by
      rintro r hr ⟨s, i⟩ ⟨k, -⟩ ⟨hs, rfl⟩
      exact answers_withOutages hserves (hagree r hr) hs)
  exact hk

theorem holds_resolvedAll (hserves : Serves digest store respond) {s : σ}
    (hs : (store s).Holds g) (hg : g.Textual digest') {functions : List Function}
    (hagree : ∀ r ∈ (resolveFile linkLocal functions).trace respond s,
      ∀ t ∈ r.hashed digest, digest t = digest' t) :
    (store ((resolveFile linkLocal functions).run respond s).2).Holds
      (resolvedAll digest' linkLocal (functions.map (·.name)) (importedFrom digest' g) Outages.none
        functions 0 g) := by
  obtain ⟨m, hm⟩ := gives_resolveFunctions hg rfl linkLocal (functions.map (·.name)) Outages.none
    functions 0
  obtain ⟨k, hk, -, rfl⟩ := hserves.run hagree hs (Gives.of_noOutages hm)
  exact hk

/-- **Which calls survive the outages**: of the calls that are there and that would be kept without
outages, those are kept that no declaration misses, unless a later one finds them again and they
have no properties. -/
theorem mem_after_outages_iff (hserves : Serves digest store respond) {s : σ}
    (hs : (store s).Holds .empty) {history : List Request} (hhistory : ∀ r ∈ history, r.IsTextual)
    (linkLocal : Bool) (functions : List Function) (outages : Outages)
    (hdigest : Collisionless digest ((history
      ++ (resolveFile linkLocal functions).trace respond (respond.after history s)
      ++ (resolveFile linkLocal functions).trace (respond.withOutages outages)
        (respond.after history s, 0)).flatMap (Request.hashed digest))) :
    ∃ g h k, (store (respond.after history s)).Holds g ∧
      (store ((resolveFile linkLocal functions).run respond (respond.after history s)).2).Holds h ∧
      (store ((resolveFile linkLocal functions).run (respond.withOutages outages)
        (respond.after history s, 0)).2.1).Holds k ∧
      ∀ r ∈ g.relationships, r.type = calls → r ∈ h.relationships → (r ∈ k.relationships ↔
        ∀ name path callee target, g.isCall name path callee target r →
          Kept (Finds linkLocal (functions.map (·.name)) outages name path callee target)
            (Misses linkLocal (functions.map (·.name)) outages name path callee target)
            (r.properties = []) (numbered functions 0)) := by
  obtain ⟨digest', hd, hagree⟩ := exists_injective_eqOn hdigest
  have hagree' : ∀ r, r ∈ history ∨ _ ∨ _ → ∀ t ∈ r.hashed digest, digest t = digest' t :=
    fun r hr t ht ↦ hagree t (List.mem_flatMap.mpr ⟨r, by
      rw [List.append_assoc, List.mem_append, List.mem_append]
      exact hr, ht⟩)
  obtain ⟨g, hgs, hg⟩ := hserves.exists_textual_after hs hhistory
    fun r hr ↦ hagree' r (Or.inl hr)
  refine ⟨g, _, _, hgs,
    holds_resolvedAll hserves hgs hg fun r hr ↦ hagree' r (Or.inr (Or.inl hr)),
    holds_resolvedAll_withOutages hserves hgs hg fun r hr ↦ hagree' r (Or.inr (Or.inr hr)),
    fun r hr htype hkept ↦ ?_⟩
  -- Resolving concerns the edge only if it is a call of one function by another.
  by_cases hcall : ∃ name path callee target, g.isCall name path callee target r
  · obtain ⟨name, path, callee, target, hcall⟩ := hcall
    obtain ⟨-, hsource, htarget⟩ := (hg.isCall_iff hd hr).mp hcall
    rw [mem_resolvedAll_iff hd hg rfl htype hsource htarget,
      eq_callRelationship_iff hd hg hr htype hsource htarget] at hkept ⊢
    rw [and_iff_left (Or.inl hr), kept_links_iff_kept_finds hkept.1]
    refine ⟨fun h name' path' callee' target' hcall' ↦ ?_, fun h ↦ h name path callee target hcall⟩
    obtain ⟨-, hsource', htarget'⟩ := (hg.isCall_iff hd hr).mp hcall'
    obtain ⟨rfl, rfl⟩ := (functionId_inj hd).mp (hsource.symm.trans hsource')
    obtain ⟨rfl, rfl⟩ := (functionId_inj hd).mp (htarget.symm.trans htarget')
    exact h
  · refine iff_of_true (mem_resolvedAll_of_mem hd hg rfl hr fun name path callee target h ↦
      hcall ⟨name, path, callee, target, h⟩) fun name path callee target h ↦ ?_
    exact absurd ⟨name, path, callee, target, h⟩ hcall

end Runs

/-! ## A lookup that costs an edge -/

/-- A file has imported a function and calls it. -/
def linkedOnce : List Request :=
  [.mergeRelationship importsFrom fileLabel (fileKey (.text "/a.ts")) fileLabel
    (fileKey (.text "/b.ts")) (some [("clause", .text "b")]),
  .mergeRelationship calls functionLabel (functionKey (.text "a") (.text "/a.ts")) functionLabel
    (functionKey (.text "b") (.text "/b.ts")) none]

theorem isTextual_linkedOnce : ∀ r ∈ linkedOnce, r.IsTextual := by
  rw [linkedOnce, List.forall_mem_cons, List.forall_mem_singleton]
  refine ⟨⟨isText_fileKey _, isText_fileKey _, ?_⟩, isText_functionKey _ _, isText_functionKey _ _, ?_⟩
  · simp [Datum.IsText]
  · simp

/-- The function that calls. -/
def linkedCaller : Function := ⟨"a", "/a.ts", "function a() \x7b b(); \x7d", 2, 2, ["b"]⟩

/-- Only the first lookup fails. -/
def firstFails : Outages := fun n ↦ if n = 0 then some ("down", none) else none

theorem mem_after_outages_iff_linkedOnce :
    (∀ r ∈ linkedOnce, r.IsTextual) ∧ ∃ g h k,
      (Rehearsal.store (Responder.after Rehearsal.serve linkedOnce (Rehearsal.new {} .empty))).Holds g ∧
      (Rehearsal.store ((resolveFile false [linkedCaller]).run Rehearsal.serve
        (Responder.after Rehearsal.serve linkedOnce (Rehearsal.new {} .empty))).2).Holds h ∧
      (Rehearsal.store ((resolveFile false [linkedCaller]).run
        (Responder.withOutages firstFails Rehearsal.serve)
        (Responder.after Rehearsal.serve linkedOnce (Rehearsal.new {} .empty), 0)).2.1).Holds k ∧
      ∀ r ∈ g.relationships, r.type = calls → r ∈ h.relationships → (r ∈ k.relationships ↔
        ∀ name path callee target, g.isCall name path callee target r →
          Kept (Finds false ["a"] firstFails name path callee target)
            (Misses false ["a"] firstFails name path callee target)
            (r.properties = []) [(linkedCaller, 0)]) :=
  ⟨isTextual_linkedOnce, mem_after_outages_iff Rehearsal.serves Store.holds_empty
    isTextual_linkedOnce false [linkedCaller] firstFails (by decide +kernel)⟩

/-- Are the relationships the same, and without properties? -/
private def sameBare (r q : Relationship) : Bool :=
  r.id == q.id && r.type == q.type && r.sourceId == q.sourceId && r.targetId == q.targetId
    && r.properties.isEmpty && q.properties.isEmpty

private theorem eq_of_sameBare {r q : Relationship} (h : sameBare r q) : r = q := by
  obtain ⟨id, type, source, target, properties⟩ := r
  obtain ⟨id', type', source', target', properties'⟩ := q
  simp only [sameBare, Bool.and_eq_true, beq_iff_eq, List.isEmpty_iff] at h
  obtain ⟨⟨⟨⟨⟨rfl, rfl⟩, rfl⟩, rfl⟩, rfl⟩, rfl⟩ := h
  rfl

/-- **A failed lookup costs an edge**: that calls survive the outages is not so. -/
theorem not_forall_mem_after_outages : ¬ ∀ (history : List Request),
    (∀ r ∈ history, r.IsTextual) → ∀ (functions : List Function) (outages : Outages) g h k,
    (Rehearsal.store (Responder.after Rehearsal.serve history (Rehearsal.new {} .empty))).Holds g →
    (Rehearsal.store ((resolveFile false functions).run Rehearsal.serve
      (Responder.after Rehearsal.serve history (Rehearsal.new {} .empty))).2).Holds h →
    (Rehearsal.store ((resolveFile false functions).run
      (Responder.withOutages outages Rehearsal.serve)
      (Responder.after Rehearsal.serve history (Rehearsal.new {} .empty), 0)).2.1).Holds k →
    ∀ r ∈ g.relationships, r.type = calls → r ∈ h.relationships → r ∈ k.relationships := by
  intro claim
  have hrun : ((Rehearsal.store (Responder.after Rehearsal.serve linkedOnce
      (Rehearsal.new {} .empty))).look (fun g ↦
      (Rehearsal.store ((resolveFile false [linkedCaller]).run Rehearsal.serve
        (Responder.after Rehearsal.serve linkedOnce (Rehearsal.new {} .empty))).2).look (fun h ↦
      (Rehearsal.store ((resolveFile false [linkedCaller]).run
        (Responder.withOutages firstFails Rehearsal.serve)
        (Responder.after Rehearsal.serve linkedOnce (Rehearsal.new {} .empty), 0)).2.1).look
      (fun k ↦ .ok ((g.relationships.any fun r ↦ r.type == calls && h.relationships.any (sameBare r))
        && !k.relationships.any (·.type == calls)))
      fun _ ↦ .ok false) fun _ ↦ .ok false) fun _ ↦ .ok false).toOption = some true := by
    decide +kernel
  obtain ⟨g, hg, hrun⟩ := Store.exists_holds_of_look hrun
  obtain ⟨h, hh, hrun⟩ := Store.exists_holds_of_look hrun
  obtain ⟨k, hk, hfound⟩ := Store.exists_holds_of_look hrun
  replace hfound := Option.some.inj hfound
  rw [Bool.and_eq_true, Bool.not_eq_true', List.any_eq_true, List.any_eq_false] at hfound
  obtain ⟨⟨r, hr, hkept⟩, hnone⟩ := hfound
  rw [Bool.and_eq_true, beq_iff_eq, List.any_eq_true] at hkept
  obtain ⟨htype, q, hq, hsame⟩ := hkept
  have hmem := claim linkedOnce isTextual_linkedOnce [linkedCaller] firstFails g h k hg hh hk r hr
    htype (eq_of_sameBare hsame ▸ hq)
  exact hnone r hmem (beq_iff_eq.mpr htype)

end CodeAtlas.Indexing
