import CodeAtlas.Indexing.Calls
import CodeAtlas.Proofs.Indexing.Writer
import CodeAtlas.Proofs.Program.Outages

/-!
# What resolving the calls of a file does

Each call of a function costs one lookup, and each function one more to list the edges that it has.
A lookup that fails is treated as if nothing had been imported under the name; a listing that fails
leaves the edges as they are. Resolving never changes an import, so what a lookup finds does not
depend on what was resolved before, and the outcome is a graph that can be written down for every
pattern of outages.

The order of the steps matters in one respect only: a function that is declared twice has its edges
brought up to date twice, and what the first declaration leaves is what the second one starts from.
-/

namespace CodeAtlas.Indexing

open CodeAtlas.Graph Program
open Syntax (Function)

/-! ## The targets of calls -/

/-- A value, if there is one. -/
def present? : Datum → Option Datum
  | .null => none
  | d => some d

theorem present?_eq_some {d e : Datum} (h : present? d = some e) : d = e ∧ e ≠ .null := by
  cases d with
  | null => exact absurd h (by simp [present?])
  | _ =>
    obtain rfl := Option.some.inj h
    exact ⟨rfl, by simp⟩

/-- The path that the first import of a name points at. -/
def importedFrom (digest : Digest) (g : Graph) (path name : String) : Option Datum :=
  (g.edgesFrom importsFrom (fileId digest path) [("clause", .text name)]).head?.bind fun e ↦
    present? (propertyOf "path" e.target)

/-- The path that a call leads to, if it is linked. -/
def targetPath (linkLocal : Bool) (f : Function) (localNames : List String) (callee : String)
    (found : Option Datum) : Option Datum :=
  match found with
  | some d => some d
  | none => if linkLocal && localNames.contains callee then some (.text f.path) else none

/-- The calls of a function that are linked, with their paths. The lookups are numbered from `n` on,
and one that fails finds nothing. -/
def linkedCalls (linkLocal : Bool) (f : Function) (localNames : List String)
    (imported : String → Option Datum) (outages : Outages) (callees : List String) (n : Nat) :
    List (String × Datum) :=
  (callees.zipIdx n).filterMap fun x ↦
    (targetPath linkLocal f localNames x.1
      (if (outages x.2).isSome then none else imported x.1)).map fun d ↦ (x.1, d)

/-- The graph with calls of a function added. -/
def addCalls (digest : Digest) (f : Function) (wanted : List (String × Datum)) (g : Graph) : Graph :=
  wanted.foldl (fun g w ↦ g.mergeRelationship digest calls functionLabel
    (functionKey (.text f.name) (.text f.path)) functionLabel (functionKey (.text w.1) w.2) []) g

/-- Does an edge that is not wanted stand for the relationship? -/
def isStaleCall (digest : Digest) (f : Function) (wanted : List (String × Datum)) :
    List Edge → Relationship → Bool :=
  isUnwanted wanted (fun e ↦ propertyOf "name" e.target) (fun e ↦ propertyOf "path" e.target)
    fun name target ↦ isBetween calls (functionId digest f.name f.path)
      (nodeId digest functionLabel (functionKey name target)) []

/-- The graph after the calls of a function have been brought up to date. -/
def resolved (digest : Digest) (linkLocal : Bool) (localNames : List String)
    (imported : String → String → Option Datum) (outages : Outages) (f : Function) (n : Nat)
    (g : Graph) : Graph :=
  let wanted := linkedCalls linkLocal f localNames (imported f.path) outages f.calls n
  let h := addCalls digest f wanted g
  if (outages (n + f.calls.length)).isSome then h
  else h.without (isStaleCall digest f wanted
    (h.edgesFrom calls (functionId digest f.name f.path) []))

/-- The graph after the calls of several functions have been brought up to date. -/
def resolvedAll (digest : Digest) (linkLocal : Bool) (localNames : List String)
    (imported : String → String → Option Datum) (outages : Outages) :
    List Function → Nat → Graph → Graph
  | [], _, g => g
  | f :: rest, n, g => resolvedAll digest linkLocal localNames imported outages rest
      (n + f.calls.length + 1) (resolved digest linkLocal localNames imported outages f n g)

/-- The number of calls that are linked. -/
def linkedCount (linkLocal : Bool) (localNames : List String)
    (imported : String → String → Option Datum) (outages : Outages) : List Function → Nat → Nat
  | [], _ => 0
  | f :: rest, n =>
    (linkedCalls linkLocal f localNames (imported f.path) outages f.calls n).length
      + linkedCount linkLocal localNames imported outages rest (n + f.calls.length + 1)

variable {digest : Digest} {g : Graph} {linkLocal : Bool} {f : Function} {localNames : List String}
  {imported : String → String → Option Datum} {outages : Outages} {n : Nat}

theorem isText_importedFrom (hg : g.Textual digest) {path name : String} {d : Datum}
    (h : importedFrom digest g path name = some d) : d.IsText := by
  obtain ⟨e, he, hd⟩ := Option.bind_eq_some_iff.mp h
  obtain ⟨r, -, rfl⟩ := mem_edgesFrom.mp (List.mem_of_head? he)
  obtain ⟨rfl, hpresent⟩ := present?_eq_some hd
  exact (Textual.isText_propertyOf (Textual.isText_propertiesAt hg _) _).resolve_left hpresent

theorem isText_targetPath {callee : String} {found : Option Datum} {d : Datum}
    (hfound : ∀ d, found = some d → d.IsText)
    (h : targetPath linkLocal f localNames callee found = some d) : d.IsText := by
  cases found with
  | some e => exact hfound d h
  | none =>
    rw [targetPath] at h
    split at h
    · exact Option.some.inj h ▸ trivial
    · exact absurd h (by simp)

theorem mem_linkedCalls {imported : String → Option Datum} {callees : List String}
    {c : String} {d : Datum} :
    (c, d) ∈ linkedCalls linkLocal f localNames imported outages callees n ↔
      ∃ k, (c, k) ∈ callees.zipIdx n ∧ targetPath linkLocal f localNames c
        (if (outages k).isSome then none else imported c) = some d := by
  rw [linkedCalls, List.mem_filterMap]
  constructor
  · rintro ⟨⟨c', k⟩, hk, hmap⟩
    obtain ⟨d', hd', heq⟩ := Option.map_eq_some_iff.mp hmap
    obtain ⟨rfl, rfl⟩ := Prod.mk.inj heq
    exact ⟨k, hk, hd'⟩
  · rintro ⟨k, hk, hd⟩
    exact ⟨(c, k), hk, by rw [hd]; rfl⟩

theorem isText_linkedCalls {imported : String → Option Datum} {callees : List String}
    (himported : ∀ c d, imported c = some d → d.IsText) :
    ∀ w ∈ linkedCalls linkLocal f localNames imported outages callees n, w.2.IsText := by
  rintro ⟨c, d⟩ hw
  obtain ⟨k, -, hd⟩ := mem_linkedCalls.mp hw
  refine isText_targetPath (fun e he ↦ ?_) hd
  split at he
  · exact absurd he (by simp)
  · exact himported c e he

theorem linkedCalls_cons {imported : String → Option Datum} {c : String} {callees : List String} :
    linkedCalls linkLocal f localNames imported outages (c :: callees) n
      = match targetPath linkLocal f localNames c
          (if (outages n).isSome then none else imported c) with
        | none => linkedCalls linkLocal f localNames imported outages callees (n + 1)
        | some d => (c, d) :: linkedCalls linkLocal f localNames imported outages callees (n + 1) := by
  rw [linkedCalls, List.zipIdx_cons, List.filterMap_cons]
  cases targetPath linkLocal f localNames c (if (outages n).isSome then none else imported c) with
  | none => rfl
  | some d => rfl

/-! ## The program -/

/-- The first call of a list is looked up, and linked if a path is found for it. -/
theorem linkCalls_cons {c : String} {callees : List String} :
    linkCalls linkLocal f localNames (c :: callees) = (do
      let found ← findCalleePath f.path c
      (targetPath linkLocal f localNames c found).elim (linkCalls linkLocal f localNames callees)
        fun d ↦ do
          ofExcept (checkComparable d)
          let written ← mergeCall f.name f.path c d
          let rest ← linkCalls linkLocal f localNames callees
          pure ((c, d) :: rest.1, if written then rest.2 + 1 else rest.2)) := by
  rw [linkCalls]
  refine congrArg _ (funext fun found ↦ ?_)
  cases found with
  | some d => rfl
  | none =>
    rw [targetPath]
    cases linkLocal && localNames.contains c with
    | true => rfl
    | false => rfl

section Program

variable {answers : Answering (Graph × Nat)}

theorem gives_findCalleePath (hg : g.Textual digest) (outages : Outages) (path callee : String) :
    (findCalleePath path callee).Gives ((Answers digest).withOutages outages) (g, n)
      (.ok (if (outages n).isSome then none else importedFrom digest g path callee))
      (g, n + 1) := by
  cases hn : outages n with
  | none =>
    have hlist : (Answers digest).Only (.findRelationships importsFrom fileLabel
        (fileKey (.text path)) (some [("clause", .text callee)])) g
        (.ok (g.edgesFrom importsFrom (fileId digest path) [("clause", .text callee)])) g :=
      only_answer (answer?_findRelationships hg importsFrom fileLabel (some [("clause", .text callee)])
        (isScalar_fileKey (Datum.isScalar_text path)))
    rw [importedFrom]
    generalize g.edgesFrom importsFrom (fileId digest path) [("clause", .text callee)] = edges
      at hlist ⊢
    refine (gives_request (hlist.of_lookup rfl hn)).attempt.bind ?_
    cases edges with
    | nil => exact gives_pure
    | cons e edges =>
      change Gives _ _ _ (.ok (present? (propertyOf "path" e.target))) _
      dsimp only
      generalize propertyOf "path" e.target = d
      cases d <;> exact gives_pure
  | some fault =>
    refine (gives_request (Answering.only_outage rfl hn)).attempt.bind ?_
    exact (gives_request (only_note.of_not_lookup rfl)).bind gives_pure

/-- Adding calls changes no import. -/
theorem importedFrom_addCall (hg : g.Textual digest) {fromKey toKey : Props} (path name : String) :
    importedFrom digest (g.mergeRelationship digest calls functionLabel fromKey functionLabel toKey
      []) path name = importedFrom digest g path name := by
  rw [importedFrom, importedFrom]
  rw [hg.edgesFrom_congr (fun _ _ ↦ node?_mergeRelationship_of_some)
    (outgoing_mergeRelationship_of_ne (by decide))]

theorem textual_addCall (hg : g.Textual digest) (f : Function) (callee : String) {d : Datum}
    (hd : d.IsText) : (g.mergeRelationship digest calls functionLabel
      (functionKey (.text f.name) (.text f.path)) functionLabel (functionKey (.text callee) d)
      []).Textual digest := by
  refine hg.mergeRelationship (isText_functionKey f.name f.path) ?_ (by simp)
  simpa [functionKey, Datum.IsText] using hd

theorem textual_addCalls (hg : g.Textual digest) {wanted : List (String × Datum)}
    (hwanted : ∀ w ∈ wanted, w.2.IsText) : (addCalls digest f wanted g).Textual digest := by
  induction wanted generalizing g with
  | nil => exact hg
  | cons w wanted ih =>
    rw [List.forall_mem_cons] at hwanted
    exact ih (textual_addCall hg f w.1 hwanted.1) hwanted.2

theorem gives_linkCalls (hg : g.Textual digest) (linkLocal : Bool) (localNames : List String)
    (outages : Outages) (himported : ∀ c, importedFrom digest g f.path c = imported f.path c)
    (callees : List String) :
    (linkCalls linkLocal f localNames callees).Gives ((Answers digest).withOutages outages) (g, n)
      (.ok (linkedCalls linkLocal f localNames (imported f.path) outages callees n,
        (linkedCalls linkLocal f localNames (imported f.path) outages callees n).length))
      (addCalls digest f (linkedCalls linkLocal f localNames (imported f.path) outages callees n) g,
        n + callees.length) := by
  induction callees generalizing g n with
  | nil => exact gives_pure
  | cons c callees ih =>
    have htext : ∀ d, (if (outages n).isSome then none else imported f.path c) = some d →
        d.IsText := by
      intro d hd
      rw [← himported c] at hd
      split at hd
      · exact absurd hd (by simp)
      · exact isText_importedFrom hg hd
    have hfind := gives_findCalleePath (n := n) hg outages f.path c
    rw [himported c] at hfind
    rw [linkCalls_cons]
    refine hfind.bind ?_
    rw [linkedCalls_cons, List.length_cons, Nat.add_comm callees.length 1, ← Nat.add_assoc]
    cases htarget : targetPath linkLocal f localNames c
        (if (outages n).isSome then none else imported f.path c) with
    | none => exact ih hg himported
    | some d =>
      have hd : d.IsText := isText_targetPath htext htarget
      have hmerge := answer?_mergeRelationship digest g calls functionLabel functionLabel none
        (isScalar_functionKey (Datum.isScalar_text f.name) (Datum.isScalar_text f.path))
        (isScalar_functionKey (Datum.isScalar_text c) hd.isScalar) (by simp)
      -- Adding the call changes no import, so the other lookups find what they would have found.
      have hnext := ih (n := n + 1) (textual_addCall hg f c hd)
        fun c ↦ (importedFrom_addCall hg f.path c).trans (himported c)
      have hcomparable : (ofExcept (checkComparable d)).Gives
          ((Answers digest).withOutages outages) (g, n + 1) (.ok ()) (g, n + 1) :=
        checkComparable_of_scalar hd.isScalar ▸ gives_ofExcept
      refine hcomparable.bind ?_
      refine (gives_mergeCall ((only_answer hmerge).of_not_lookup rfl)).bind ?_
      exact hnext.bind gives_pure

theorem deletesUnwanted_calls (f : Function) (wanted : List (String × Datum)) :
    DeletesUnwanted wanted (fun e ↦ propertyOf "name" e.target) (fun e ↦ propertyOf "path" e.target)
      (deleteCall f.name f.path) (deleteStaleCalls f wanted) := ⟨rfl, fun _ _ ↦ rfl⟩

theorem gives_deleteStaleCalls {wanted : List (String × Datum)} {edges : List Edge}
    (hedges : ∀ e ∈ edges, (propertyOf "name" e.target).IsScalar ∧
      (propertyOf "path" e.target).IsScalar) :
    (deleteStaleCalls f wanted edges).Gives ((Answers digest).withOutages outages) (g, n) (.ok ())
      (g.without (isStaleCall digest f wanted edges), n) := by
  refine (deletesUnwanted_calls f wanted).gives (fun g ↦ (g, n)) (fun hname hpath g ↦ ?_)
    hedges g
  obtain ⟨k, hk⟩ := answer?_deleteRelationship digest g calls functionLabel functionLabel none
    (isScalar_functionKey (Datum.isScalar_text f.name) (Datum.isScalar_text f.path))
    (isScalar_functionKey hname hpath)
  exact ⟨k, gives_deleteCall ((only_answer hk).of_not_lookup rfl)⟩

/-- Deleting calls changes no import. -/
theorem importedFrom_withoutCalls (hg : g.Textual digest) {wanted : List (String × Datum)}
    {edges : List Edge} (path name : String) :
    importedFrom digest (g.without (isStaleCall digest f wanted edges)) path name
      = importedFrom digest g path name := by
  have hfresh : ∀ r ∈ g.outgoing importsFrom (fileId digest path) [("clause", .text name)],
      isStaleCall digest f wanted edges r = false := by
    intro r hr
    obtain ⟨-, htype, -⟩ := mem_outgoing.mp hr
    rw [isStaleCall, isUnwanted, List.any_eq_false]
    intro e _ hdoomed
    rw [Bool.and_eq_true, isBetween_iff, htype] at hdoomed
    exact absurd hdoomed.2.1 (by decide)
  rw [importedFrom, importedFrom, hg.edgesFrom_congr (h := g.without _) (fun _ _ hn ↦ hn)
    (outgoing_without hfresh)]

theorem importedFrom_addCalls (hg : g.Textual digest) {wanted : List (String × Datum)}
    (hwanted : ∀ w ∈ wanted, w.2.IsText) (path name : String) :
    importedFrom digest (addCalls digest f wanted g) path name = importedFrom digest g path name := by
  induction wanted generalizing g with
  | nil => rfl
  | cons w wanted ih =>
    rw [List.forall_mem_cons] at hwanted
    exact (ih (textual_addCall hg f w.1 hwanted.1) hwanted.2).trans
      (importedFrom_addCall hg path name)

end Program

/-! ## Whole files -/

section Files

variable (hg : g.Textual digest) (himported : importedFrom digest g = imported)

include hg himported

theorem isText_linked (linkLocal : Bool) (localNames : List String) (outages : Outages)
    (f : Function) (n : Nat) : ∀ w ∈ linkedCalls linkLocal f localNames (imported f.path) outages
      f.calls n, w.2.IsText :=
  isText_linkedCalls fun _ _ h ↦ isText_importedFrom hg (himported ▸ h)

theorem textual_resolved :
    (resolved digest linkLocal localNames imported outages f n g).Textual digest := by
  have hadded := textual_addCalls (f := f) hg
    (isText_linked hg himported linkLocal localNames outages f n)
  rw [resolved]
  split
  · exact hadded
  · exact hadded.without _

theorem importedFrom_resolved :
    importedFrom digest (resolved digest linkLocal localNames imported outages f n g) = imported := by
  funext path name
  have htext := isText_linked hg himported linkLocal localNames outages f n
  have hadded := importedFrom_addCalls (f := f) hg htext path name
  rw [resolved, ← himported, ← hadded, himported]
  split
  · rfl
  · exact importedFrom_withoutCalls (textual_addCalls hg htext) path name

theorem gives_resolveFunction :
    (resolveFunction linkLocal f localNames).Gives ((Answers digest).withOutages outages) (g, n)
      (.ok (linkedCalls linkLocal f localNames (imported f.path) outages f.calls n).length)
      (resolved digest linkLocal localNames imported outages f n g, n + f.calls.length + 1) := by
  have hlink := gives_linkCalls (n := n) hg linkLocal localNames outages
    (fun c ↦ congrFun (congrFun himported f.path) c) f.calls
  have hh := textual_addCalls (f := f) hg
    (isText_linked hg himported linkLocal localNames outages f n)
  refine hlink.bind ?_
  rw [resolved]
  cases hn : outages (n + f.calls.length) with
  | none =>
    have hlist := only_answer (answer?_findRelationships hh calls functionLabel none
      (isScalar_functionKey (Datum.isScalar_text f.name) (Datum.isScalar_text f.path)))
    refine (gives_request (hlist.of_lookup rfl hn)).attempt.bind ?_
    refine (gives_deleteStaleCalls fun e he ↦ ?_).bind gives_pure
    exact ⟨hh.isScalar_target he _, hh.isScalar_target he _⟩
  | some fault =>
    refine (gives_request (Answering.only_outage rfl hn)).attempt.bind ?_
    exact (gives_request (only_note.of_not_lookup rfl)).bind gives_pure

end Files

theorem gives_resolveFunctions (hg : g.Textual digest) (himported : importedFrom digest g = imported)
    (linkLocal : Bool) (localNames : List String) (outages : Outages) (functions : List Function)
    (n : Nat) :
    ∃ m, (resolveFunctions linkLocal localNames functions).Gives
      ((Answers digest).withOutages outages) (g, n)
      (.ok (linkedCount linkLocal localNames imported outages functions n))
      (resolvedAll digest linkLocal localNames imported outages functions n g, m) := by
  induction functions generalizing g n with
  | nil => exact ⟨n, gives_pure⟩
  | cons f functions ih =>
    have hnext : (resolved digest linkLocal localNames imported outages f n g).Textual digest :=
      textual_resolved hg himported
    obtain ⟨m, hm⟩ := ih hnext (importedFrom_resolved hg himported) (n + f.calls.length + 1)
    exact ⟨m, (gives_resolveFunction hg himported).bind (hm.bind gives_pure)⟩

theorem textual_resolvedAll (hg : g.Textual digest) (himported : importedFrom digest g = imported)
    {functions : List Function} :
    (resolvedAll digest linkLocal localNames imported outages functions n g).Textual digest := by
  induction functions generalizing g n with
  | nil => exact hg
  | cons f functions ih =>
    exact ih (textual_resolved hg himported) (importedFrom_resolved hg himported)

/-! ## Which relationships are left -/

/-- A call as it stands in the graph. -/
def callRelationship (digest : Digest) (name path callee target : String) : Relationship :=
  keyRelationship digest calls functionLabel (functionKey (.text name) (.text path)) functionLabel
    (functionKey (.text callee) (.text target)) []

/-- Is it a call of the function, to a function that is not among the wanted ones? -/
def IsUnwantedCall (digest : Digest) (f : Function) (wanted : List (String × Datum))
    (r : Relationship) : Prop :=
  r.type = calls ∧ r.sourceId = functionId digest f.name f.path ∧
    ∃ c q, r.targetId = functionId digest c q ∧ (c, .text q) ∉ wanted

section Injective

variable (hd : Function.Injective digest)

include hd

theorem mem_addCalls (hg : g.Textual digest) {wanted : List (String × Datum)}
    (hwanted : ∀ w ∈ wanted, w.2.IsText) {r : Relationship} :
    r ∈ (addCalls digest f wanted g).relationships ↔ r ∈ g.relationships ∨
      ∃ c q, (c, .text q) ∈ wanted ∧ r = callRelationship digest f.name f.path c q := by
  induction wanted generalizing g with
  | nil => simp [addCalls]
  | cons w wanted ih =>
    rw [List.forall_mem_cons] at hwanted
    obtain ⟨hw, hwanted⟩ := hwanted
    obtain ⟨c, d⟩ := w
    obtain ⟨q, rfl⟩ : ∃ q, d = .text q := by
      cases d with
      | text q => exact ⟨q, rfl⟩
      | _ => exact hw.elim
    have hstep := textual_addCall hg f c (d := .text q) trivial
    have hmem : r ∈ (addCalls digest f ((c, .text q) :: wanted) g).relationships ↔ _ :=
      ih hstep hwanted
    rw [hmem, hg.mem_relationships_mergeRelationship hd (fun _ ↦ Datum.IsText.isScalar) (by simp)
      (by simp), or_assoc]
    refine or_congr Iff.rfl ⟨?_, ?_⟩
    · rintro (rfl | ⟨c', q', hmem', rfl⟩)
      · exact ⟨c, q, List.mem_cons_self, rfl⟩
      · exact ⟨c', q', List.mem_cons_of_mem _ hmem', rfl⟩
    · rintro ⟨c', q', hmem', rfl⟩
      rcases List.mem_cons.mp hmem' with heq | hmem'
      · rw [Prod.mk.injEq, Datum.text.injEq] at heq
        exact Or.inl (by rw [heq.1, heq.2]; rfl)
      · exact Or.inr ⟨c', q', hmem', rfl⟩

/-- What the edges of a function say is unwanted are its unwanted calls. -/
theorem isStaleCall_iff (hg : g.Textual digest) {wanted : List (String × Datum)}
    (hwanted : ∀ w ∈ wanted, w.2.IsText) {r : Relationship} (hr : r ∈ g.relationships) :
    isStaleCall digest f wanted (g.edgesFrom calls (functionId digest f.name f.path) []) r ↔
      IsUnwantedCall digest f wanted r := by
  rw [isStaleCall, isUnwanted, List.any_eq_true, IsUnwantedCall]
  constructor
  · rintro ⟨e, he, hdoomed⟩
    rw [Bool.and_eq_true, isBetween_iff, Bool.not_eq_true'] at hdoomed
    obtain ⟨hnot, htype, hsource, htarget, -⟩ := hdoomed
    obtain ⟨m, hm⟩ := hg.target_mem r hr
    rw [htarget] at hm
    -- The node is there, so the name and the path that lead to it are its properties and texts.
    have hperm := (hg.node_of_id hd (fun _ ↦ Datum.IsText.isScalar)
      (isScalar_functionKey (hg.isScalar_target he "name") (hg.isScalar_target he "path")) hm).2
    have htext : ∀ x ∈ functionKey (propertyOf "name" e.target) (propertyOf "path" e.target),
        x.2.IsText := fun x hx ↦ hg.node_admits m (mem_of_node? hm).1 x (hperm.mem_iff.mpr hx)
    rw [functionKey, List.forall_mem_cons, List.forall_mem_singleton] at htext
    refine ⟨htype, hsource, ?_⟩
    cases hname : propertyOf "name" e.target with
    | text c =>
      cases hpath : propertyOf "path" e.target with
      | text q =>
        rw [hname, hpath] at htarget hnot
        refine ⟨c, q, htarget, fun hmem ↦ ?_⟩
        rw [(wants_text hwanted).mpr hmem] at hnot
        exact absurd hnot (by decide)
      | _ => exact absurd htext.2 (by simp [hpath, Datum.IsText])
    | _ => exact absurd htext.1 (by simp [hname, Datum.IsText])
  · rintro ⟨htype, hsource, c, q, htarget, hnot⟩
    have hnode := hg.target_mem r hr
    rw [htarget] at hnode
    obtain ⟨hname, hpath⟩ := hg.propertiesAt_function hd hnode
    refine ⟨⟨g.propertiesAt r.targetId, r.properties⟩,
      mem_edgesFrom.mpr ⟨r, mem_outgoing.mpr ⟨hr, htype, hsource, includes_nil _⟩, rfl⟩, ?_⟩
    rw [Bool.and_eq_true, isBetween_iff, Bool.not_eq_true', htarget, hname, hpath]
    refine ⟨eq_false_of_ne_true fun hmem ↦ hnot ((wants_text hwanted).mp hmem), htype, hsource, rfl,
      includes_nil _⟩

/-- **Resolving a function** adds its linked calls and, unless the listing fails, leaves no other
calls of the function. -/
theorem mem_resolved (hg : g.Textual digest) (himported : importedFrom digest g = imported)
    {r : Relationship} :
    r ∈ (resolved digest linkLocal localNames imported outages f n g).relationships ↔
      (r ∈ g.relationships ∨ ∃ c q, (c, .text q) ∈ linkedCalls linkLocal f localNames
          (imported f.path) outages f.calls n ∧ r = callRelationship digest f.name f.path c q) ∧
        ((outages (n + f.calls.length)).isSome ∨ ¬ IsUnwantedCall digest f
          (linkedCalls linkLocal f localNames (imported f.path) outages f.calls n) r) := by
  have htext := isText_linked hg himported linkLocal localNames outages f n
  have hmem := mem_addCalls (f := f) (r := r) hd hg htext
  rw [resolved]
  split
  · rename_i hfails
    rw [hmem]
    exact ⟨fun hr ↦ ⟨hr, Or.inl hfails⟩, And.left⟩
  · rename_i hlists
    rw [mem_relationships_without, ← hmem]
    refine and_congr_right fun hr ↦ ?_
    rw [isStaleCall_iff hd (textual_addCalls hg htext) htext hr]
    exact ⟨Or.inr, fun h ↦ h.resolve_left hlists⟩

end Injective

end CodeAtlas.Indexing
