import CodeAtlas.Proofs.Files.Writes
import CodeAtlas.Proofs.Graph.GraphCalls
import Mathlib.Data.List.Infix

/-!
# Changes that have not been saved

A store that is flushed saves only if it is marked as dirty. So a change that is not in the document
has to be marked, or it is lost:

* if the nodes or the relationships differ from those that were last saved, or from those that the
  store was opened with, the mark is set (`Client.Remembers`).

Saves fail: between two calls others may do anything to the files. A failed save leaves the mark,
and a merge sets it again. Still there are two ways to leave a change without a mark (`Forgets`):

* clearing saves at once and never sets the mark, so when this save fails the removal is forgotten;
* a merge of a relationship that fails half-way has added an end and not yet set the mark.

A run of calls remembers all its changes if and only if none of its calls does one of the two
(`remembers_iff`).
-/

namespace CodeAtlas

namespace GraphCall

/-- Does the call put the document in its place? -/
def saves (r : Rehearsal) : GraphCall → Bool
  | flush => r.store.dirty && r.trySave.2
  | clear => ({ r with store := r.store.clear } : Rehearsal).trySave.2
  | _ => false

/-- The call leaves a store with another content than it found, neither marked nor saved. -/
inductive Forgets (r : Rehearsal) : GraphCall → Prop
  | clear {path : String} {why : FileFault} (hclean : r.store.dirty = false)
    (hpath : r.document = some path) (hfailed : r.files.writeFault? path = some why)
    (hchanged : r.store.content.parts ≠ Content.empty.parts) : Forgets r .clear
  | mergeRelationship {type fromLabel : String} {fromKey : Props} {toLabel : String} {toKey : Props}
    {attrs : Option Props} {why : Fault} {s : Store} (hclean : r.store.dirty = false)
    (hfailed : r.store.mergeRelationship Text.Digest.ofText type fromLabel fromKey toLabel toKey
      (attrs.getD []) = (.error why, s))
    (hchanged : s.content.parts ≠ r.store.content.parts) :
    Forgets r (.mergeRelationship type fromLabel fromKey toLabel toKey attrs)

end GraphCall

/-! ## What a call leaves -/

namespace Store

variable {s s' : Store} {digest : Digest}

theorem dirty_mergeNode {label id : String} {key : Props}
    (h : s.mergeNode digest label key = .ok (s', id)) : s'.dirty = true := by
  obtain ⟨_, -, h⟩ := bind_eq_ok.mp h
  obtain ⟨content, -, h⟩ := bind_eq_ok.mp h
  obtain ⟨rfl, -⟩ := Prod.mk.inj (Except.ok.inj h)
  rfl

theorem dirty_withNode {label : String} {key : Props} (h : s.withNode digest label key = .ok s') :
    s'.dirty = s.dirty := by
  obtain ⟨_, -, h⟩ := bind_eq_ok.mp h
  obtain ⟨content, -, h⟩ := bind_eq_ok.mp h
  obtain rfl := Except.ok.inj h
  rfl

/-- A merge marks the store at its end, so a merge that fails leaves the mark as it was. -/
theorem dirty_mergeRelationship {type fromLabel : String} {fromKey : Props} {toLabel : String}
    {toKey attrs : Props} {x : Except Fault String}
    (h : s.mergeRelationship digest type fromLabel fromKey toLabel toKey attrs = (x, s')) :
    s'.dirty = (s.dirty || x.isOk) := by
  rw [mergeRelationship] at h
  split at h
  · obtain ⟨rfl, rfl⟩ := Prod.mk.inj h
    exact (Bool.or_false _).symm
  · rename_i s₁ hfrom
    split at h
    · obtain ⟨rfl, rfl⟩ := Prod.mk.inj h
      exact (dirty_withNode hfrom).trans (Bool.or_false _).symm
    · rename_i s₂ hto
      have hdirty : s₂.dirty = s.dirty := (dirty_withNode hto).trans (dirty_withNode hfrom)
      dsimp only at h
      split at h
      · obtain ⟨rfl, rfl⟩ := Prod.mk.inj h
        exact hdirty.trans (Bool.or_false _).symm
      · obtain ⟨rfl, rfl⟩ := Prod.mk.inj h
        exact (Bool.or_true _).symm

theorem dirty_deleteRelationship {type fromLabel : String} {fromKey : Props} {toLabel : String}
    {toKey attrs : Props} {n : Nat}
    (h : s.deleteRelationship digest type fromLabel fromKey toLabel toKey attrs = .ok (s', n)) :
    s'.dirty = (s.dirty || n != 0) := by
  obtain ⟨content, dirty⟩ := s
  obtain ⟨_, -, h⟩ := bind_eq_ok.mp h
  cases content with
  | graph g m =>
    obtain ⟨rfl, rfl⟩ := Prod.mk.inj (Except.ok.inj h)
    rfl
  | damaged document =>
    obtain ⟨⟨document', count⟩, -, h⟩ := bind_eq_ok.mp h
    obtain ⟨rfl, rfl⟩ := Prod.mk.inj (Except.ok.inj h)
    rfl

/-- A deletion that finds nothing leaves the nodes and the relationships. -/
theorem parts_deleteRelationship {type fromLabel : String} {fromKey : Props} {toLabel : String}
    {toKey attrs : Props}
    (h : s.deleteRelationship digest type fromLabel fromKey toLabel toKey attrs = .ok (s', 0)) :
    s'.content.parts = s.content.parts := by
  have hdocument := s.deleteRelationship_eq digest type fromLabel fromKey toLabel toKey attrs
  rw [h] at hdocument
  obtain ⟨_, -, hdelete⟩ := bind_eq_ok.mp hdocument.symm
  obtain ⟨rels, hrels, -, hcount, hrels', hnodes⟩ := Graph.Damaged.deleteRelationship_eq_ok hdelete
  dsimp only at hcount hrels' hnodes
  have hall : Graph.Damaged.spared type (Graph.nodeId digest fromLabel fromKey)
      (Graph.nodeId digest toLabel toKey) attrs rels = rels :=
    List.filter_sublist.eq_of_length_le (Nat.sub_eq_zero_iff_le.mp hcount.symm)
  rw [hall] at hrels'
  exact Prod.ext hnodes (hrels'.trans hrels.symm)

end Store

namespace GraphCall

variable {r : Rehearsal} {c : GraphCall}

theorem saves_clear_eq_false : saves r .clear = false ↔
    ∃ path why, r.document = some path ∧ r.files.writeFault? path = some why := by
  cases hpath : r.document with
  | none =>
    have hsave := Rehearsal.trySave_of_none (r := { r with store := r.store.clear }) hpath
    rw [saves, hsave]
    simp
  | some path =>
    rw [saves, Rehearsal.trySave_clear hpath]
    simp [Option.isSome_iff_exists]

theorem dirty_clear :
    (run r .clear).2.store.dirty = (r.store.dirty && !saves r .clear) := by
  rw [run, Rehearsal.clearStore, Rehearsal.saveStore, Rehearsal.dirty_trySave]
  rfl

/-- A call that forgets neither saves nor marks what it has changed. -/
theorem Forgets.spec (h : c.Forgets r) : c.saves r = false ∧ r.store.dirty = false ∧
    (c.run r).2.store.dirty = false ∧ (c.run r).2.store.content.parts ≠ r.store.content.parts := by
  cases h with
  | clear hclean hpath hfailed hchanged =>
    have hsaves : saves r .clear = false := saves_clear_eq_false.mpr ⟨_, _, hpath, hfailed⟩
    have hdirty : (run r .clear).2.store.dirty = false := by
      rw [dirty_clear, hclean, Bool.false_and]
    exact ⟨hsaves, hclean, hdirty, fun hsame ↦ hchanged (hsame.symm.trans r.parts_clearStore)⟩
  | mergeRelationship hclean hfailed hchanged =>
    have hdirty := Store.dirty_mergeRelationship hfailed
    refine ⟨rfl, hclean, ?_, ?_⟩
    · rw [run, Rehearsal.serve, hfailed]
      exact hdirty.trans (Bool.or_eq_false_iff.mpr ⟨hclean, rfl⟩)
    · rw [run, Rehearsal.serve, hfailed]
      exact hchanged

/-- Every call saves, or leaves the store marked, or changes nothing, or forgets. -/
theorem run_cases (r : Rehearsal) (c : GraphCall) :
    c.saves r = true ∨ (c.run r).2.store.dirty = true ∨
      ((c.run r).2.store.dirty = r.store.dirty ∧
        (c.run r).2.store.content.parts = r.store.content.parts) ∨ c.Forgets r := by
  cases c with
  | setUp | findRelationships | expandCalls | stats => exact Or.inr (Or.inr (Or.inl ⟨rfl, rfl⟩))
  | mergeNode label key =>
    rw [run, Rehearsal.serve]
    cases hmerge : r.store.mergeNode Text.Digest.ofText label key with
    | error e => exact Or.inr (Or.inr (Or.inl ⟨rfl, rfl⟩))
    | ok result => exact Or.inr (Or.inl (Store.dirty_mergeNode hmerge))
  | deleteRelationship type fromLabel fromKey toLabel toKey attrs =>
    rw [run, Rehearsal.serve]
    cases hdelete : r.store.deleteRelationship Text.Digest.ofText type fromLabel fromKey toLabel toKey
        (attrs.getD []) with
    | error e => exact Or.inr (Or.inr (Or.inl ⟨rfl, rfl⟩))
    | ok result =>
      obtain ⟨s, n⟩ := result
      have hdirty : s.dirty = (r.store.dirty || n != 0) := Store.dirty_deleteRelationship hdelete
      cases n with
      | zero =>
        exact Or.inr (Or.inr (Or.inl ⟨hdirty.trans (Bool.or_false _),
          Store.parts_deleteRelationship hdelete⟩))
      | succ n => exact Or.inr (Or.inl (hdirty.trans (Bool.or_true _)))
  | mergeRelationship type fromLabel fromKey toLabel toKey attrs =>
    cases hmerge : r.store.mergeRelationship Text.Digest.ofText type fromLabel fromKey toLabel toKey
      (attrs.getD []) with
    | mk x s =>
      have hdirty : s.dirty = (r.store.dirty || x.isOk) := Store.dirty_mergeRelationship hmerge
      rw [run, Rehearsal.serve, hmerge]
      cases x with
      | ok id => exact Or.inr (Or.inl (hdirty.trans (Bool.or_true _)))
      | error why =>
        have hmark : s.dirty = r.store.dirty := hdirty.trans (Bool.or_false _)
        by_cases hparts : s.content.parts = r.store.content.parts
        · exact Or.inr (Or.inr (Or.inl ⟨hmark, hparts⟩))
        · cases hclean : r.store.dirty with
          | true => exact Or.inr (Or.inl (hmark.trans hclean))
          | false => exact Or.inr (Or.inr (Or.inr (.mergeRelationship hclean hmerge hparts)))
  | clear =>
    cases hsaves : saves r .clear with
    | true => exact Or.inl rfl
    | false =>
      have hdirty : (run r .clear).2.store.dirty = r.store.dirty := by
        rw [dirty_clear, hsaves]
        exact Bool.and_true _
      cases hclean : r.store.dirty with
      | true => exact Or.inr (Or.inl (hdirty.trans hclean))
      | false =>
        by_cases hempty : r.store.content.parts = Content.empty.parts
        · have hsame : (run r .clear).2.store.content.parts = r.store.content.parts :=
            r.parts_clearStore.trans hempty.symm
          exact Or.inr (Or.inr (Or.inl ⟨hdirty.trans hclean, hsame⟩))
        · obtain ⟨path, why, hpath, hfailed⟩ := saves_clear_eq_false.mp hsaves
          exact Or.inr (Or.inr (Or.inr (.clear hclean hpath hfailed hempty)))
  | flush =>
    rw [run, Rehearsal.serve, saves]
    cases hdirty : r.store.dirty with
    | false => exact Or.inr (Or.inr (Or.inl ⟨hdirty, rfl⟩))
    | true =>
      cases hsave : r.trySave.2 with
      | true => exact Or.inl rfl
      | false =>
        refine Or.inr (Or.inl ?_)
        have hmark : r.trySave.1.store.dirty = (r.store.dirty && !r.trySave.2) := r.dirty_trySave
        rw [hdirty, hsave] at hmark
        exact hmark

end GraphCall

/-! ## Runs -/

/-- One call. Until then others may have changed the files, and time has gone by. -/
structure Turn where
  files : FileTree
  clock : Float
  call : GraphCall

/-- A store that is in use, and what its document held when it was last written or read. -/
structure Client where
  rehearsal : Rehearsal
  saved : Content

namespace Client

/-- A client that has just been opened. -/
def opened (r : Rehearsal) : Client := ⟨r.openStore, r.openStore.store.content⟩

/-- What the client finds when it is its turn. -/
def before (c : Client) (t : Turn) : Rehearsal :=
  { c.rehearsal with files := t.files, clock := t.clock }

def after (c : Client) (t : Turn) : Client :=
  let r := (t.call.run (c.before t)).2
  ⟨r, if t.call.saves (c.before t) then r.store.content else c.saved⟩

def afterAll (turns : List Turn) (c : Client) : Client := turns.foldl after c

/-- If the nodes or the relationships are not the saved ones, the next flush saves. -/
def Remembers (c : Client) : Prop :=
  c.rehearsal.store.content.parts ≠ c.saved.parts → c.rehearsal.store.dirty = true

variable {c : Client} {t : Turn}

theorem remembers_opened (r : Rehearsal) : (opened r).Remembers := fun hne ↦ absurd rfl hne

/-- **A step**: a client goes on remembering its changes if and only if the call forgets none. -/
theorem remembers_after (h : c.Remembers) :
    (c.after t).Remembers ↔ ¬ t.call.Forgets (c.before t) := by
  constructor
  · intro hafter hforgets
    obtain ⟨hsaves, hclean, hclean', hchanged⟩ := hforgets.spec
    have hsaved : (c.before t).store.content.parts = c.saved.parts := by
      by_contra hne
      exact absurd ((h hne).symm.trans hclean) (by decide)
    have hstill : (c.after t).saved = c.saved := by
      rw [after, hsaves]
      rfl
    have hdirty : (c.after t).rehearsal.store.dirty = true :=
      hafter (hstill ▸ hsaved ▸ hchanged)
    exact absurd (hdirty.symm.trans hclean') (by decide)
  · intro hkeeps hne
    cases hsaves : t.call.saves (c.before t) with
    | true =>
      have hstored : (c.after t).saved = (c.after t).rehearsal.store.content := by
        rw [after, hsaves]
        rfl
      exact absurd (hstored ▸ rfl) hne
    | false =>
      have hstill : (c.after t).saved = c.saved := by
        rw [after, hsaves]
        rfl
      rcases GraphCall.run_cases (c.before t) t.call with hsaves' | hdirty | ⟨hmark, hparts⟩ | hforgets
      · exact absurd (hsaves'.symm.trans hsaves) (by decide)
      · exact hdirty
      · have hbefore : c.rehearsal.store.content.parts ≠ c.saved.parts :=
          fun heq ↦ hne (hparts.trans (heq.trans (congrArg Content.parts hstill.symm)))
        exact hmark.trans (h hbefore)
      · exact absurd hforgets hkeeps

/-- **A failed save is remembered.** In every state of a run the mark is set if the nodes or the
relationships differ from the saved ones, if and only if no call of the run forgets its change: the
removal of everything when it cannot be saved, or an end of a relationship whose merge fails. -/
theorem remembers_iff (r : Rehearsal) (turns : List Turn) :
    (∀ past, past <+: turns → ((opened r).afterAll past).Remembers) ↔
      ∀ past t, past ++ [t] <+: turns →
        ¬ t.call.Forgets (((opened r).afterAll past).before t) := by
  have hlast : ∀ past t, (opened r).afterAll (past ++ [t]) = ((opened r).afterAll past).after t :=
    fun past t ↦ List.foldl_concat _ _ _ _
  constructor
  · intro h past t hpast
    have hbefore : ((opened r).afterAll past).Remembers :=
      h past ((List.prefix_append past [t]).trans hpast)
    exact (remembers_after hbefore).mp (hlast past t ▸ h (past ++ [t]) hpast)
  · intro h past hpast
    induction past using List.reverseRecOn with
    | nil => exact remembers_opened r
    | append_singleton past t ih =>
      have hbefore : ((opened r).afterAll past).Remembers :=
        ih ((List.prefix_append past [t]).trans hpast)
      rw [hlast]
      exact (remembers_after hbefore).mpr (h past t hpast)

/-! ## A removal that is forgotten -/

/-- A store with a new document. -/
def onNewDocument : Rehearsal := { Rehearsal.new {} .empty with document := some "graph.json" }

/-- A node is added and saved. -/
def savedNode : List Turn :=
  [⟨.empty, 0.0, .mergeNode Graph.fileLabel (Graph.fileKey (.text "a.ts"))⟩, ⟨.empty, 0.0, .flush⟩]

/-- By then there is a directory where the document was, and everything is removed. -/
def lostRemoval : Turn := ⟨.directory [("graph.json", .empty)], 0.0, .clear⟩

theorem placeOf_newDocument {files : FileTree} (h : files.linkCount = 0) :
    files.placeOf "graph.json" = ["graph.json"] := by
  rw [FileTree.placeOf_of_linkless h]
  decide +kernel

theorem opened_onNewDocument : opened onNewDocument = ⟨onNewDocument, .empty⟩ := by
  have hread : onNewDocument.files.read "graph.json" = .error .missing := by
    rw [FileTree.read, placeOf_newDocument rfl]
    rfl
  have hthere : onNewDocument.files.isThere "graph.json" = false := by
    rw [FileTree.isThere, placeOf_newDocument rfl]
    rfl
  have hopen : onNewDocument.openStore = onNewDocument := by
    simp only [Rehearsal.openStore, onNewDocument] at hread hthere ⊢
    rw [hread]
    simp only [hthere]
    rfl
  rw [opened, hopen]
  rfl

/-- The removal changes the graph, is not saved, and leaves no mark. -/
theorem not_forall_remembers : ¬ ∀ (r : Rehearsal) (turns past : List Turn), past <+: turns →
    ((opened r).afterAll past).Remembers := by
  intro h
  let found : Rehearsal := { onNewDocument with
    store := ⟨.graph (Graph.empty.mergeNode Text.Digest.ofText Graph.fileLabel
      (Graph.fileKey (.text "a.ts"))) (some Content.newMetadata), true⟩ }
  have hflush : ((opened onNewDocument).afterAll savedNode).rehearsal = found.trySave.1 := by
    rw [opened_onNewDocument]
    rfl
  have hwritable : found.files.writeFault? "graph.json" = none := by
    rw [FileTree.writeFault?, placeOf_newDocument rfl]
    rfl
  have hpath : found.document = some "graph.json" := rfl
  obtain ⟨c, hstamp, -, hsave⟩ | ⟨c, why, -, hfailed, -⟩ := Rehearsal.trySave_cases hpath
  · have hforgets : lostRemoval.call.Forgets
        (((opened onNewDocument).afterAll savedNode).before lostRemoval) := by
      have hfault : lostRemoval.files.writeFault? "graph.json" = some .isDirectory := by
        rw [FileTree.writeFault?, placeOf_newDocument rfl]
        rfl
      rw [before, hflush, hsave]
      refine GraphCall.Forgets.clear rfl rfl hfault ?_
      intro hempty
      have hparts : found.store.content.parts = Content.empty.parts :=
        (Content.parts_stamp hstamp).symm.trans hempty
      have hnodes : some (Datum.map [Content.nodeEntry (Graph.keyNode Text.Digest.ofText
          Graph.fileLabel (Graph.fileKey (.text "a.ts")))]) = some (Datum.map []) :=
        (Prod.mk.inj hparts).1
      simp at hnodes
    have hremembers := h onNewDocument (savedNode ++ [lostRemoval])
    have hbefore := hremembers savedNode (List.prefix_append _ _)
    exact (remembers_after hbefore).mp (hremembers _ (List.prefix_refl _)) hforgets
  · rcases hfailed with ⟨e, he⟩ | ⟨e, he⟩
    · exact absurd he (by rintro ⟨⟩)
    · exact absurd (he.symm.trans hwritable) (by rintro ⟨⟩)

end Client

end CodeAtlas
