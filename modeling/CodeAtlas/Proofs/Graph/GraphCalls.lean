import CodeAtlas.Proofs.Graph.PlainData
import CodeAtlas.Rehearsal.Respond

/-!
# Calls to a store in a document

What a store can be asked, with any arguments, and what it leaves of its nodes and relationships.
These two are the *parts* of a content. The stamps are not among them: a save changes the stamps, and
whether it succeeds or not, it leaves the parts as they are.
-/

namespace CodeAtlas

/-- What a store is asked to do, with any arguments. Closing a store is flushing it. -/
inductive GraphCall where
  | setUp
  | mergeNode (label : String) (key : Props)
  | mergeRelationship (type fromLabel : String) (fromKey : Props) (toLabel : String) (toKey : Props)
      (attrs : Option Props)
  | deleteRelationship (type fromLabel : String) (fromKey : Props) (toLabel : String)
      (toKey : Props) (attrs : Option Props)
  | findRelationships (type fromLabel : String) (fromKey : Props) (attrs : Option Props)
  | expandCalls (functionId : String)
  | stats
  | clear
  | flush

namespace GraphCall

/-- An answer of which only matters whether it is given. -/
def outcome {α : Type} (result : Except Fault α × Rehearsal) : Except Fault Unit × Rehearsal :=
  (result.1.map fun _ ↦ (), result.2)

/-- The outcome of the call, and the surroundings after it. -/
def run (r : Rehearsal) : GraphCall → Except Fault Unit × Rehearsal
  | setUp => outcome (r.store.nodeCount, r)
  | mergeNode label key => outcome (r.serve (.mergeNode label key))
  | mergeRelationship type fromLabel fromKey toLabel toKey attrs =>
    outcome (r.serve (.mergeRelationship type fromLabel fromKey toLabel toKey attrs))
  | deleteRelationship type fromLabel fromKey toLabel toKey attrs =>
    outcome (r.serve (.deleteRelationship type fromLabel fromKey toLabel toKey attrs))
  | findRelationships type fromLabel fromKey attrs =>
    outcome (r.serve (.findRelationships type fromLabel fromKey attrs))
  | expandCalls functionId => outcome (r.serve (.expandCalls functionId))
  | stats => outcome (r.serve .graphStats)
  | clear => (.ok (), r.clearStore)
  | flush => outcome (r.serve .flushGraph)

end GraphCall

/-! ## Nodes and relationships -/

namespace Content

/-- The nodes and the relationships, if they are there. -/
def parts (c : Content) : Option Datum × Option Datum :=
  (c.toDatum.get? "nodes", c.toDatum.get? "relationships")

theorem parts_graph (g : Graph) (m m' : Option Datum) : parts (.graph g m) = parts (.graph g m') := rfl

theorem parts_stamp {now : String} {c stamped : Content} (h : c.stamp now = .ok stamped) :
    stamped.parts = c.parts := by
  cases c with
  | graph g m =>
    cases m with
    | none => exact absurd h (by simp [stamp])
    | some metadata =>
      obtain ⟨metadata', -, hstamped⟩ := bind_eq_ok.mp h
      obtain rfl : .graph g (some metadata') = stamped := Except.ok.inj hstamped
      exact parts_graph g _ _
  | damaged document =>
    obtain ⟨metadata, -, h⟩ := bind_eq_ok.mp h
    obtain ⟨metadata', -, h⟩ := bind_eq_ok.mp h
    obtain ⟨document', hput, hstamped⟩ := bind_eq_ok.mp h
    obtain rfl : .damaged document' = stamped := Except.ok.inj hstamped
    have hother : ∀ key, key ≠ "metadata" → document'.get? key = document.get? key := by
      intro key hkey
      cases document with
      | map entries =>
        obtain rfl : .map (Props.insert "metadata" metadata' entries) = document' :=
          Except.ok.inj hput
        exact Props.get?_insert_of_ne hkey _ _
      | _ => exact absurd hput (by simp [Lookup.put, Lookup.wrongType])
    exact Prod.ext (hother "nodes" (by decide)) (hother "relationships" (by decide))

end Content

/-! ## Saving -/

namespace Rehearsal

variable {r : Rehearsal} {path : String}

/-- A save has written the stamped content, or it has failed and left the mark as it was. -/
theorem trySave_cases (hpath : r.document = some path) :
    (∃ c, r.store.content.stamp (Datum.floatText r.clock) = .ok c ∧
      r.files.writeFault? path = none ∧ r.trySave = ({ r with
        store := ⟨c, false⟩, files := r.files.write path (Store.document c).toUTF8 }, true)) ∨
    ∃ c why, c.parts = r.store.content.parts ∧
      ((∃ e, r.store.content.stamp (Datum.floatText r.clock) = .error e) ∨
        ∃ e, r.files.writeFault? path = some e) ∧
      r.trySave = (({ r with store := ⟨c, r.store.dirty⟩ } : Rehearsal).notice true storeName why,
        false) := by
  rw [trySave, hpath]
  cases hstamp : r.store.content.stamp (Datum.floatText r.clock) with
  | error e =>
    refine Or.inr ⟨r.store.content, s!"Error saving graph data: {e.text}", rfl, Or.inl ⟨e, rfl⟩, ?_⟩
    simp only [Store.saveThrough, Store.save, hstamp, bind, Except.bind]
  | ok c =>
    cases hfault : r.files.writeFault? path with
    | none =>
      refine Or.inl ⟨c, rfl, rfl, ?_⟩
      simp only [Store.saveThrough, Store.save, hstamp, bind, Except.bind, pure, Except.pure,
        writeDocument, hfault]
    | some e =>
      refine Or.inr ⟨c, s!"Error saving graph data: {e.message path}", Content.parts_stamp hstamp,
        Or.inr ⟨e, rfl⟩, ?_⟩
      simp only [Store.saveThrough, Store.save, hstamp, bind, Except.bind, pure, Except.pure,
        writeDocument, hfault]

theorem trySave_of_none (hpath : r.document = none) :
    r.trySave = ({ r with store := { r.store with dirty := false } }, true) := by
  rw [trySave, hpath]

theorem parts_trySave (r : Rehearsal) :
    r.trySave.1.store.content.parts = r.store.content.parts := by
  cases hpath : r.document with
  | none => rw [trySave_of_none hpath]
  | some path =>
    rcases trySave_cases hpath with ⟨c, hstamp, -, hsave⟩ | ⟨c, why, hparts, -, hsave⟩
    · rw [hsave]
      exact Content.parts_stamp hstamp
    · rw [hsave]
      exact hparts

theorem parts_clearStore (r : Rehearsal) :
    r.clearStore.store.content.parts = Content.empty.parts := by
  rw [clearStore, saveStore, parts_trySave]
  rfl

/-- The mark goes when the document is written, and stays as it is when it is not. -/
theorem dirty_trySave (r : Rehearsal) :
    r.trySave.1.store.dirty = (r.store.dirty && !r.trySave.2) := by
  cases hpath : r.document with
  | none =>
    rw [trySave_of_none hpath]
    exact (Bool.and_false _).symm
  | some path =>
    rcases trySave_cases hpath with ⟨c, -, -, hsave⟩ | ⟨c, why, -, -, hsave⟩
    · rw [hsave]
      exact (Bool.and_false _).symm
    · rw [hsave]
      exact (Bool.and_true _).symm

/-- The empty graph has a place for the stamps, so its save fails only where the file cannot be
written. -/
theorem trySave_clear (hpath : r.document = some path) :
    ({ r with store := r.store.clear } : Rehearsal).trySave.2
      = (r.files.writeFault? path).isNone := by
  rcases trySave_cases (r := { r with store := r.store.clear }) hpath with
    ⟨c, -, hfault, hsave⟩ | ⟨c, why, -, hwhy, hsave⟩
  · rw [hsave, hfault, Option.isNone_none]
  · rw [hsave]
    rcases hwhy with ⟨e, hstamp⟩ | ⟨e, hfault⟩
    · exact absurd hstamp (by rintro ⟨⟩)
    · rw [hfault, Option.isNone_some]

end Rehearsal

end CodeAtlas
