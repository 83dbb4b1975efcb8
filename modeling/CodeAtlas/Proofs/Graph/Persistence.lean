import CodeAtlas.Proofs.Files.Writes
import CodeAtlas.Proofs.Graph.Documents
import CodeAtlas.Rehearsal.Steps

/-!
# What a client leaves behind

A client changes the graph in memory, and only some of its calls write the document. When it is
closed, a client that opens the same document holds the same graph.

## The invariant

A client may skip a save when nothing has changed since the last one, so for each of its states
something must be known about the document on disk:

* if the client is not dirty, the document is the one of the graph in memory, or there is none yet
  and the graph is empty (`Saved`).

A call that changes the graph makes the client dirty, with two exceptions. A deletion that finds
nothing leaves the graph as it is. Clearing leaves the mark alone, and saves in any case.

Nothing is asked of the digest: two elements with one id would be one element in both clients. What
the file system has to provide is that a document that has been written can be read (`Keeps`).
-/

namespace CodeAtlas

open Content (stamps)

/-- What a client is asked to do, or time that goes by. Closing a client is flushing it. -/
inductive ClientCall where
  | change (c : StoreCall)
  | findRelationships (type : String) (source : NodeRef) (attrs : TextItems)
  | expandCalls (functionId : String)
  | getNode (n : NodeRef)
  | stats
  | flush
  | wait (clock : Float)

namespace ClientCall

/-- The client after the call. -/
def run (r : Rehearsal) : ClientCall → Rehearsal
  | change (.mergeNode n) => (r.serve (.mergeNode n.label n.key.props)).2
  | change (.mergeRelationship type source target attrs) =>
    (r.serve (.mergeRelationship type source.label source.key.props target.label target.key.props
      (some attrs.props))).2
  | change (.deleteRelationship type source target attrs) =>
    (r.serve (.deleteRelationship type source.label source.key.props target.label target.key.props
      (some attrs.props))).2
  | change .clear => r.clearStore
  | findRelationships type source attrs =>
    (r.serve (.findRelationships type source.label source.key.props (some attrs.props))).2
  | expandCalls functionId => (r.serve (.expandCalls functionId)).2
  | getNode n => ((Rehearsal.look (Rehearsal.node? n.label n.key.props)).run r).2
  | stats => (r.serve .graphStats).2
  | flush => (r.serve .flushGraph).2
  | wait clock => { r with clock }

/-- The graph after the call. -/
def onGraph (g : Graph) : ClientCall → Graph
  | change c => c.onGraph Text.Digest.ofText g
  | _ => g

end ClientCall

/-- The graph that calls make of an empty one. -/
def Graph.afterCalls (calls : List ClientCall) : Graph := calls.foldl ClientCall.onGraph .empty

namespace Rehearsal

def afterCalls (calls : List ClientCall) (r : Rehearsal) : Rehearsal :=
  calls.foldl ClientCall.run r

/-- A client opens its document, makes its calls, and is closed. -/
def session (calls : List ClientCall) (r : Rehearsal) : Rehearsal :=
  ClientCall.flush.run (r.openStore.afterCalls calls)

/-! ## The document on disk -/

variable {r : Rehearsal} {path : String} {g : Graph}

/-- The document of the graph is there, or nothing is there and the graph is empty. -/
def Saved (path : String) (g : Graph) (files : FileTree) : Prop :=
  (files.isFile path = false ∧ g = .empty) ∨
    ∃ created updated, files.read path
      = .ok (Store.document (.graph g (some (stamps created updated)))).toUTF8

/-- The client holds the graph, and has saved it unless it is dirty. -/
structure Persistent (path : String) (g : Graph) (r : Rehearsal) : Prop where
  document : r.document = some path
  mapped : g.Mapped Text.Digest.ofText
  content : ∃ created updated, r.store.content = .graph g (some (stamps created updated))
  saved : r.store.dirty = false → Saved path g r.files

theorem document_openStore (r : Rehearsal) : r.openStore.document = r.document := by
  rw [openStore]
  dsimp only
  repeat' split
  all_goals rfl

theorem files_openStore (r : Rehearsal) : r.openStore.files = r.files := by
  rw [openStore]
  dsimp only
  repeat' split
  all_goals rfl

/-- A client that is opened holds what has been saved. -/
theorem exists_openStore (hpath : r.document = some path) (hg : g.Mapped Text.Digest.ofText)
    (hsaved : Saved path g r.files) : ∃ created updated,
      r.openStore.store = ⟨.graph g (some (stamps created updated)), false⟩ := by
  rcases hsaved with ⟨hmissing, rfl⟩ | ⟨created, updated, hread⟩
  · refine ⟨none, none, ?_⟩
    rw [FileTree.isFile] at hmissing
    cases hread : r.files.read path with
    | ok content => exact absurd hmissing (by simp [hread])
    | error e =>
      simp only [openStore, hpath, hread]
      split <;> rfl
  · refine ⟨created, updated, ?_⟩
    simp only [openStore, hpath, hread, FileTree.fromUTF8?_toUTF8, Option.bind_some,
      Store.load?_document hg]

/-- A save puts the document of the graph on disk. -/
theorem persistent_saveStore (hpath : r.document = some path) (hg : g.Mapped Text.Digest.ofText)
    (hcontent : ∃ created updated, r.store.content = .graph g (some (stamps created updated)))
    (hkeeps : r.files.Keeps path) :
    Persistent path g r.saveStore ∧ r.saveStore.store.dirty = false := by
  obtain ⟨created, updated, hcontent⟩ := hcontent
  obtain ⟨created', hsave⟩ := Store.exists_save_stamps (Datum.floatText r.clock) g created updated
    r.store.dirty
  rw [← hcontent] at hsave
  have hrun : r.saveStore = { r with
      store := ⟨.graph g (some (stamps created' (some (Datum.floatText r.clock)))), false⟩
      files := r.files.write path (Store.document
        (.graph g (some (stamps created' (some (Datum.floatText r.clock)))))).toUTF8 } := by
    rw [saveStore, trySave, hpath]
    simp only [Store.saveThrough, hsave, writeDocument, hkeeps.writable]
  rw [hrun]
  exact ⟨⟨hpath, hg, ⟨_, _, rfl⟩, fun _ ↦ Or.inr ⟨_, _, hkeeps _⟩⟩, rfl⟩

/-! ## The calls -/

theorem run_look {α : Type} (f : Rehearsal → Except Fault α) (r : Rehearsal) :
    ((look f).run r).2 = r := by
  have hrun : (look f).run r = (ofExcept (f r) : Effect Rehearsal α).run r := rfl
  rw [hrun]
  cases f r <;> rfl

namespace Persistent

/-- Where a call has changed the graph, the mark has to be set. -/
theorem of_dirty (h : Persistent path g r) {k : Graph} (hk : k.Mapped Text.Digest.ofText)
    {s : Store} (hdirty : s.dirty = true)
    (hcontent : ∃ created updated, s.content = .graph k (some (stamps created updated))) :
    Persistent path k { r with store := s } :=
  ⟨h.document, hk, hcontent, fun hclean ↦ Bool.noConfusion (hdirty.symm.trans hclean)⟩

theorem mergeNode (h : Persistent path g r) (n : NodeRef) :
    Persistent path (g.mergeNode Text.Digest.ofText n.label n.key.props)
      (ClientCall.run r (.change (.mergeNode n))) := by
  obtain ⟨created, updated, hcontent⟩ := h.content
  have hwritable : Graph.checkWritable [n.key.props] = .ok () := by
    rw [Graph.checkWritable, List.all_cons, Graph.isWritable_props]
    rfl
  have hrun : ClientCall.run r (.change (.mergeNode n)) = { r with
      store := ⟨.graph (g.mergeNode Text.Digest.ofText n.label n.key.props)
        (some (stamps created updated)), true⟩ } := by
    rw [ClientCall.run, serve, Store.mergeNode, hwritable, hcontent]
    rfl
  rw [hrun]
  exact h.of_dirty (h.mapped.mergeNode n) rfl ⟨created, updated, rfl⟩

theorem mergeRelationship (h : Persistent path g r) (type : String) (source target : NodeRef)
    (attrs : TextItems) :
    Persistent path (g.mergeRelationship Text.Digest.ofText type source.label source.key.props
        target.label target.key.props attrs.props)
      (ClientCall.run r (.change (.mergeRelationship type source target attrs))) := by
  obtain ⟨created, updated, hcontent⟩ := h.content
  have hwritable : ∀ items : TextItems, Graph.checkWritable [items.props] = .ok () := by
    intro items
    rw [Graph.checkWritable, List.all_cons, Graph.isWritable_props]
    rfl
  have hrun : ClientCall.run r (.change (.mergeRelationship type source target attrs)) = { r with
      store := ⟨.graph (g.mergeRelationship Text.Digest.ofText type source.label source.key.props
        target.label target.key.props attrs.props) (some (stamps created updated)), true⟩ } := by
    rw [ClientCall.run, serve, Store.mergeRelationship, Store.withNode, hwritable, hcontent]
    simp only [Option.getD_some, Store.withNode, hwritable, Store.addNode, bind, Except.bind, pure,
      Except.pure, Store.addRelationship]
    rfl
  rw [hrun]
  exact h.of_dirty (h.mapped.mergeRelationship type source target attrs) rfl
    ⟨created, updated, rfl⟩

/-- A deletion that finds nothing leaves the mark, and the graph with it. -/
theorem deleteRelationship (h : Persistent path g r) (type : String) (source target : NodeRef)
    (attrs : TextItems) :
    Persistent path (g.without (Graph.isBetween type (source.id Text.Digest.ofText)
        (target.id Text.Digest.ofText) attrs.props))
      (ClientCall.run r (.change (.deleteRelationship type source target attrs))) := by
  obtain ⟨created, updated, hcontent⟩ := h.content
  let doomed := Graph.isBetween type (source.id Text.Digest.ofText) (target.id Text.Digest.ofText)
    attrs.props
  have hrun : ClientCall.run r (.change (.deleteRelationship type source target attrs)) = { r with
      store := ⟨.graph (g.without doomed) (some (stamps created updated)),
        r.store.dirty || g.relationships.countP doomed != 0⟩ } := by
    rw [ClientCall.run, serve, Option.getD_some, Store.deleteRelationship_graph hcontent]
    rfl
  rw [hrun]
  refine ⟨h.document, h.mapped.without doomed, ⟨created, updated, rfl⟩, fun hclean ↦ ?_⟩
  obtain ⟨hdirty, hcount⟩ := Bool.or_eq_false_iff.mp hclean
  have hnone : ∀ q ∈ g.relationships, doomed q = false := by
    rw [bne_eq_false_iff_eq, List.countP_eq_zero] at hcount
    exact fun q hq ↦ Bool.eq_false_iff.mpr (hcount q hq)
  rw [Graph.without_eq_self hnone]
  exact h.saved hdirty

/-- Clearing saves the empty graph, whether the client is dirty or not. -/
theorem clear (h : Persistent path g r) (hkeeps : r.files.Keeps path) :
    Persistent path .empty (ClientCall.run r (.change .clear)) := by
  let cleared : Rehearsal := { r with store := r.store.clear }
  have hcontent : cleared.store.content = .graph .empty (some (stamps none none)) := rfl
  have hdocument : cleared.document = some path := h.document
  exact (persistent_saveStore hdocument .empty ⟨none, none, hcontent⟩ hkeeps).1

theorem flush (h : Persistent path g r) (hkeeps : r.files.Keeps path) :
    Persistent path g (ClientCall.run r .flush) ∧
      (ClientCall.run r .flush).store.dirty = false := by
  rw [ClientCall.run, serve]
  by_cases hdirty : r.store.dirty
  · rw [if_pos hdirty]
    exact persistent_saveStore h.document h.mapped h.content hkeeps
  · rw [if_neg hdirty]
    exact ⟨h, Bool.eq_false_iff.mpr hdirty⟩

/-- **A step**: whatever a client is asked to do, a client that is not dirty has saved its graph. -/
theorem run (h : Persistent path g r) (hkeeps : r.files.Keeps path) (c : ClientCall) :
    Persistent path (c.onGraph g) (c.run r) := by
  cases c with
  | change c =>
    cases c with
    | mergeNode n => exact h.mergeNode n
    | mergeRelationship type source target attrs =>
      exact h.mergeRelationship type source target attrs
    | deleteRelationship type source target attrs =>
      exact h.deleteRelationship type source target attrs
    | clear => exact h.clear hkeeps
  | flush => exact (h.flush hkeeps).1
  | wait clock => exact ⟨h.document, h.mapped, h.content, h.saved⟩
  | getNode n =>
    have hlook : ClientCall.run r (.getNode n) = r := run_look _ r
    exact hlook.symm ▸ h
  | findRelationships | expandCalls | stats => exact h

/-- **A run** of calls. -/
theorem afterCalls {calls : List ClientCall} (h : Persistent path g r)
    (hkeeps : ∀ past, past <+: calls → (r.afterCalls past).files.Keeps path) :
    Persistent path (calls.foldl ClientCall.onGraph g) (r.afterCalls calls) := by
  induction calls using List.reverseRecOn with
  | nil => exact h
  | append_singleton calls c ih =>
    have hbefore := ih fun past hpast ↦ hkeeps past (hpast.trans (List.prefix_append _ _))
    rw [Rehearsal.afterCalls, List.foldl_append, List.foldl_append]
    exact hbefore.run (hkeeps calls (List.prefix_append _ _)) c

end Persistent

/-! ## Writing succeeds -/

/-- A save leaves the file tree alone, or writes the document. -/
theorem files_saveStore (hpath : r.document = some path) :
    r.saveStore.files = r.files ∨ ∃ content, r.saveStore.files = r.files.write path content := by
  rw [saveStore, trySave, hpath]
  dsimp only
  split
  · rename_i store files hsave
    rw [Store.saveThrough] at hsave
    split at hsave
    · exact absurd hsave (by simp)
    · rename_i text _
      split at hsave
      · rename_i written hwrite
        rw [writeDocument] at hwrite
        split at hwrite
        · exact absurd hwrite (by simp)
        · obtain rfl : r.files.write path text.toUTF8 = written := Except.ok.inj hwrite
          obtain ⟨-, hfiles⟩ := Prod.mk.inj hsave
          exact Or.inr ⟨_, (Except.ok.inj hfiles).symm⟩
      · exact absurd hsave (by simp)
  · exact Or.inl rfl

theorem document_saveStore (r : Rehearsal) : r.saveStore.document = r.document := by
  exact (congrArg document r.saveStore_eq).trans rfl

theorem accepts_saveStore (hpath : r.document = some path) (h : r.files.Accepts path) :
    r.saveStore.files.Accepts path := by
  rcases files_saveStore hpath with hfiles | ⟨content, hfiles⟩
  · exact hfiles ▸ h
  · exact hfiles ▸ h.write content

/-- No call makes the document one that cannot be written. -/
theorem accepts_run (hpath : r.document = some path) (h : r.files.Accepts path) (c : ClientCall) :
    (c.run r).document = some path ∧ (c.run r).files.Accepts path := by
  have hsame : ∀ {α : Type} (result : Except Fault (Store × α)),
      (r.withStore result).2.document = some path ∧ (r.withStore result).2.files.Accepts path := by
    intro α result
    cases result <;> exact ⟨hpath, h⟩
  have hsaved : ∀ {r : Rehearsal}, r.document = some path → r.files.Accepts path →
      r.saveStore.document = some path ∧ r.saveStore.files.Accepts path :=
    fun hpath h ↦ ⟨(document_saveStore _).trans hpath, accepts_saveStore hpath h⟩
  cases c with
  | change c =>
    cases c with
    | mergeNode n => exact hsame _
    | deleteRelationship type source target attrs => exact hsame _
    | mergeRelationship type source target attrs => exact ⟨hpath, h⟩
    | clear => exact hsaved (r := { r with store := r.store.clear }) hpath h
  | flush =>
    rw [ClientCall.run, serve]
    split
    · exact hsaved hpath h
    · exact ⟨hpath, h⟩
  | getNode n =>
    have hlook : ClientCall.run r (.getNode n) = r := run_look _ r
    exact hlook.symm ▸ ⟨hpath, h⟩
  | findRelationships | expandCalls | stats | wait => exact ⟨hpath, h⟩

/-- Where the document can be written once and there are no links, it can always be written. -/
theorem keeps_afterCalls (hpath : r.document = some path) (h : r.files.Accepts path)
    (calls : List ClientCall) : (r.afterCalls calls).files.Keeps path := by
  have hlast : (r.afterCalls calls).document = some path ∧ (r.afterCalls calls).files.Accepts path := by
    induction calls generalizing r with
    | nil => exact ⟨hpath, h⟩
    | cons c calls ih =>
      obtain ⟨hpath', h'⟩ := accepts_run hpath h c
      exact ih hpath' h'
  exact hlast.2.keeps

/-- **Persistence loses nothing.** When a client on a new document has made any calls and is closed,
a client that opens the document again holds the same graph, with the nodes and the relationships in
the same order, and answers every question alike. -/
theorem same_graph_of_reopened {r : Rehearsal} {path : String} (hpath : r.document = some path)
    (hnew : r.files.isFile path = false) (calls : List ClientCall)
    (hkeeps : ∀ past, past <+: calls → (r.openStore.afterCalls past).files.Keeps path) :
    (r.session calls).store.Holds (Graph.afterCalls calls) ∧
      (r.session calls).openStore.store.Holds (Graph.afterCalls calls) ∧
      (r.session calls).openStore.store.AnswersAlike (r.session calls).store := by
  have hmissing : Saved path .empty r.files := Or.inl ⟨hnew, rfl⟩
  have hopened : Persistent path .empty r.openStore := by
    obtain ⟨created, updated, hopen⟩ := exists_openStore hpath .empty hmissing
    refine ⟨(document_openStore r).trans hpath, .empty, ⟨created, updated, ?_⟩, fun _ ↦ ?_⟩
    · rw [hopen]
    · rw [files_openStore]
      exact hmissing
  obtain ⟨hclosed, hclean⟩ := (hopened.afterCalls hkeeps).flush (hkeeps calls (List.prefix_refl _))
  have hfirst : (r.session calls).store.Holds (Graph.afterCalls calls) := by
    obtain ⟨created, updated, hcontent⟩ := hclosed.content
    exact ⟨_, hcontent⟩
  have hagain : (r.session calls).openStore.store.Holds (Graph.afterCalls calls) := by
    obtain ⟨created, updated, hopen⟩ :=
      exists_openStore hclosed.document hclosed.mapped (hclosed.saved hclean)
    exact ⟨_, congrArg Store.content hopen⟩
  exact ⟨hfirst, hagain, hagain.answersAlike hfirst⟩

/-- A client on a document that is not there yet. -/
def unsaved : Rehearsal := { Rehearsal.new {} .empty with document := some "graph.json" }

/-- Paths with a quote, a backslash, control characters, and a character beyond the first plane. -/
def oddPaths : List ClientCall :=
  [.change (.mergeRelationship Graph.importsFrom (Store.fileRef "a\"\\\n")
      (Store.fileRef "\u0000é😀") ∅), .flush,
    .change (.deleteRelationship Graph.importsFrom (Store.fileRef "é") (Store.fileRef "é") ∅)]

/-- The deletion finds nothing, and the client is closed without another save. -/
theorem same_graph_of_reopened_oddPaths :
    unsaved.document = some "graph.json" ∧ unsaved.files.isFile "graph.json" = false ∧
      (∀ past, past <+: oddPaths → (unsaved.openStore.afterCalls past).files.Keeps "graph.json") ∧
      (unsaved.session oddPaths).openStore.store.Holds (Graph.afterCalls oddPaths) ∧
      (Graph.afterCalls oddPaths).nodes.map (fun n ↦ (n.property "path").text?)
        = [some "a\"\\\n", some "\u0000é😀"] := by
  have hplace : unsaved.files.placeOf "graph.json" = ["graph.json"] := by
    rw [FileTree.placeOf_of_linkless rfl]
    decide +kernel
  have hmissing : unsaved.files.isFile "graph.json" = false := by
    rw [FileTree.isFile, FileTree.read, hplace]
    rfl
  have haccepts : unsaved.openStore.files.Accepts "graph.json" := by
    rw [files_openStore]
    refine ⟨rfl, ?_⟩
    rw [FileTree.writeFault?, hplace]
    rfl
  have hkeeps : ∀ past, past <+: oddPaths →
      (unsaved.openStore.afterCalls past).files.Keeps "graph.json" :=
    fun past _ ↦ keeps_afterCalls (document_openStore unsaved) haccepts past
  have hreopened := same_graph_of_reopened rfl hmissing oddPaths hkeeps
  exact ⟨rfl, hmissing, hkeeps, hreopened.2.1, by decide +kernel⟩

end Rehearsal

end CodeAtlas
