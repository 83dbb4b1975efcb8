import CodeAtlas.Proofs.Json.RoundTrip
import CodeAtlas.Proofs.Program.Effects
import CodeAtlas.Records.VectorStore
import CodeAtlas.Rehearsal.Collection
import Mathlib.Data.List.Induction
import Mathlib.Logic.Function.Basic

/-!
# What a record store gives back

A record store keeps its rows in a collection of a database and finds them again by an expression. An
expression is a text, and the id is written into it. So what a look-up finds depends on how the
database reads the id back. If a literal could end early, or if two ids had one literal, a record
would be found under an id that it was never stored under.

## What is assumed of the database

The collection is a map from ids to rows, and an expression that compares the id with a literal holds
for the row whose id the literal decodes to (`VectorService.IsMap`). How it decodes an id that was
written as a literal is not assumed; that the id comes back is the round trip of JSON texts. Which
states stand for which map is left to the database, as is what else it notes down.

## The last write

A record without an embedding is refused before the database is asked. So after any upserts the map
has, at each id, the row of the last record with this id that has an embedding (`lastStored`), and a
look-up gives this record back with its code and summary cut (`get_after_upserts`).
-/

namespace CodeAtlas

namespace FunctionRecord

/-- Has the record an embedding that can be stored? -/
def isEmbedded (r : FunctionRecord) : Bool := !(r.embedding.getD []).isEmpty

/-- The record as it is given back: its code and its summary are cut, and its embedding stays in the
collection. -/
def kept (codeLength : Int) (r : FunctionRecord) : FunctionRecord :=
  { r with
    code := some (Text.cut codeLength (r.code.getD ""))
    summary := Text.cut 8192 r.summary
    embedding := none }

theorem isEmbedded_iff {r : FunctionRecord} :
    r.isEmbedded = true ↔ ∃ x xs, r.embedding = some (x :: xs) := by
  rcases h : r.embedding with _ | ⟨_ | ⟨x, xs⟩⟩ <;> simp [isEmbedded, h]

theorem not_isEmbedded_iff {r : FunctionRecord} :
    r.isEmbedded = false ↔ r.embedding = none ∨ r.embedding = some [] := by
  rcases h : r.embedding with _ | ⟨_ | ⟨x, xs⟩⟩ <;> simp [isEmbedded, h]

end FunctionRecord

namespace Records

variable {σ : Type}

/-! ## Collections as maps -/

/-- The service keeps a map from ids to rows; `Holds s m` says that it is `m` in the state `s`. -/
structure VectorService.IsMap (service : VectorService σ)
    (Holds : σ → (String → Option Row) → Prop) : Prop where
  upsert {s : σ} {m : String → Option Row} (h : Holds s m) (row : Row) : ∃ t,
    service.call (.upsert row) s = (.ok (), t) ∧ Holds t (Function.update m row.id (some row))
  flush {s : σ} {m : String → Option Row} (h : Holds s m) : ∃ t,
    service.call .flush s = (.ok (), t) ∧ Holds t m
  query {s : σ} {m : String → Option Row} (h : Holds s m) {literal id : String}
    (hliteral : Json.read literal = .ok (.text id)) (fields : List String) : ∃ t,
    service.call (.query (idStart ++ literal) fields) s = (.ok (m id).toList, t) ∧ Holds t m

/-- A literal is read back as the id it was written for, whatever characters the id has. -/
theorem read_literal (id : String) : Json.read (Json.write .line (.text id)) = .ok (.text id) :=
  Json.read_write Json.isPlain_line (.text id)

/-! ## The last write -/

/-- The last one of the records that has the id and an embedding. -/
def lastStored (id : String) (records : List FunctionRecord) : Option FunctionRecord :=
  records.reverse.find? fun r ↦ r.isEmbedded && r.id == id

/-- The row of a record with an embedding. -/
def rowOf (codeLength : Int) (r : FunctionRecord) : Row :=
  .ofRecord codeLength (r.embedding.getD []) r

/-- What becomes of the map when a record is upserted. -/
def put (codeLength : Int) (m : String → Option Row) (r : FunctionRecord) : String → Option Row :=
  if r.isEmbedded then Function.update m r.id (some (rowOf codeLength r)) else m

/-- **The last write wins.** -/
theorem foldl_put (codeLength : Int) (m : String → Option Row) (records : List FunctionRecord)
    (id : String) : records.foldl (put codeLength) m id
      = ((lastStored id records).map (rowOf codeLength)).or (m id) := by
  induction records using List.reverseRecOn with
  | nil => rfl
  | append_singleton records r ih =>
    rw [List.foldl_append, List.foldl_cons, List.foldl_nil, put, lastStored, List.reverse_append,
      List.reverse_singleton, List.singleton_append, List.find?_cons]
    by_cases hr : r.isEmbedded = true
    · by_cases hid : id = r.id
      · subst hid
        rw [if_pos hr, Function.update_self, hr, beq_self_eq_true]
        rfl
      · rw [if_pos hr, Function.update_of_ne hid, ih, hr, beq_eq_false_iff_ne.mpr (Ne.symm hid)]
        rfl
    · rw [if_neg hr, ih, Bool.eq_false_iff.mpr hr]
      rfl

namespace VectorStore

variable {s : VectorStore σ} {Holds : σ → (String → Option Row) → Prop} {m : String → Option Row}
  {st : σ}

/-! ## Single calls -/

theorem orStorageFault_of_ok {α : Type} {service : VectorService σ} {step : Effect σ α} {a : α}
    {st' : σ} (h : step st = (.ok a, st')) (report message : String) :
    orStorageFault service step report message st = (.ok a, st') := by
  have hattempt : step.attempt st = (.ok (.ok a), st') := by rw [Effect.attempt_eq, h]
  rw [orStorageFault, Effect.bind_of_ok hattempt]
  rfl

/-- What an upsert answers. -/
def upsertOutcome (r : FunctionRecord) : Except Fault Unit :=
  if r.isEmbedded then .ok () else .error (.storage s!"record {r.id} has no embedding" none)

theorem upsert_of_not_isEmbedded {r : FunctionRecord} (hr : r.isEmbedded = false) :
    s.upsert r st = (upsertOutcome r, st) := by
  rw [upsertOutcome, hr, if_neg Bool.false_ne_true, upsert]
  rcases FunctionRecord.not_isEmbedded_iff.mp hr with hnone | hempty
  · rw [hnone]
    rfl
  · rw [hempty]
    rfl

theorem call_eq (hs : s.hasCollection = true) (operation : String) (c : CollectionCall) :
    s.call operation c = s.service.call c := if_pos hs

variable (hs : s.hasCollection = true) (hmap : s.service.IsMap Holds)

include hs hmap

theorem exists_upsert (hst : Holds st m) (r : FunctionRecord) : ∃ st',
    s.upsert r st = (upsertOutcome r, st') ∧ Holds st' (put s.rules.codeLength m r) := by
  by_cases hr : r.isEmbedded = true
  · obtain ⟨x, xs, hembedding⟩ := FunctionRecord.isEmbedded_iff.mp hr
    have hrow : rowOf s.rules.codeLength r = .ofRecord s.rules.codeLength (x :: xs) r := by
      rw [rowOf, hembedding, Option.getD_some]
    obtain ⟨st₁, hupsert, hst₁⟩ := hmap.upsert hst (.ofRecord s.rules.codeLength (x :: xs) r)
    obtain ⟨st₂, hflush, hst₂⟩ := hmap.flush hst₁
    refine ⟨st₂, ?_, ?_⟩
    · rw [upsertOutcome, if_pos hr, upsert, hembedding]
      refine orStorageFault_of_ok ?_ _ _
      rw [call_eq hs, call_eq hs]
      exact (Effect.bind_of_ok hupsert).trans hflush
    · rw [put, if_pos hr, hrow]
      exact hst₂
  · rw [Bool.not_eq_true] at hr
    refine ⟨st, upsert_of_not_isEmbedded hr, ?_⟩
    rw [put, hr, if_neg Bool.false_ne_true]
    exact hst

theorem exists_get (hst : Holds st m) (id : String) : ∃ st',
    s.get id st = (.ok ((m id).map Row.record), st') ∧ Holds st' m := by
  obtain ⟨st', hquery, hst'⟩ := hmap.query hst (read_literal id) outputFields
  refine ⟨st', orStorageFault_of_ok ?_ _ _, hst'⟩
  rw [call_eq hs]
  refine (Effect.bind_of_ok hquery).trans ?_
  cases m id <;> rfl

theorem exists_contains (hst : Holds st m) (id : String) : ∃ st',
    s.contains id st = (.ok (m id).isSome, st') ∧ Holds st' m := by
  obtain ⟨st', hget, hst'⟩ := exists_get hs hmap hst id
  refine ⟨st', ?_, hst'⟩
  rw [contains, Effect.map_eq, hget, Except.map, Option.isSome_map]

/-! ## Upserts one after another -/

omit hs hmap in
/-- Upserts the records in order; a failure stops only the upsert that fails. -/
def upsertAll (s : VectorStore σ) : List FunctionRecord → σ → List (Except Fault Unit) × σ
  | [], st => ([], st)
  | r :: rest, st =>
    let (x, st) := s.upsert r st
    let (xs, st) := s.upsertAll rest st
    (x :: xs, st)

theorem exists_upsertAll (hst : Holds st m) (records : List FunctionRecord) : ∃ st',
    s.upsertAll records st = (records.map upsertOutcome, st') ∧
      Holds st' (records.foldl (put s.rules.codeLength) m) := by
  induction records generalizing st m with
  | nil => exact ⟨st, rfl, hst⟩
  | cons r records ih =>
    obtain ⟨st₁, hupsert, hst₁⟩ := exists_upsert hs hmap hst r
    obtain ⟨st₂, hrest, hst₂⟩ := ih hst₁
    refine ⟨st₂, ?_, hst₂⟩
    rw [upsertAll, hupsert, List.map_cons]
    simp only [hrest]

/-- **The last record of each id is given back**, whatever characters the ids have. After any upserts
into a collection that holds the map `m`:

* an upsert has failed if and only if the record has no embedding;
* a look-up finds the last record with exactly this id that has an embedding, its name, path and lines
  as they were, its code and its summary cut; if there is none, it finds what was there before, which
  is nothing in an empty collection;
* a record is said to exist if and only if a look-up finds one;
* an upsert without an embedding fails and leaves the collection as it is. -/
theorem get_after_upserts (hst : Holds st m) (records : List FunctionRecord) : ∃ st',
    s.upsertAll records st = (records.map upsertOutcome, st') ∧
      (∀ id, (s.get id st').1 = .ok (((lastStored id records).map fun r ↦
        r.kept s.rules.codeLength).or ((m id).map Row.record))) ∧
      (∀ id, (s.contains id st').1 = (s.get id st').1.map Option.isSome) ∧
      ∀ r : FunctionRecord, r.embedding = none ∨ r.embedding = some [] →
        s.upsert r st' = (.error (.storage s!"record {r.id} has no embedding" none), st') := by
  obtain ⟨st', hupserts, hst'⟩ := exists_upsertAll hs hmap hst records
  refine ⟨st', hupserts, fun id ↦ ?_, fun id ↦ ?_, fun r hr ↦ ?_⟩
  · obtain ⟨_, hget, -⟩ := exists_get hs hmap hst' id
    rw [hget, foldl_put, Option.map_or, Option.map_map]
    rfl
  · obtain ⟨_, hget, -⟩ := exists_get hs hmap hst' id
    obtain ⟨_, hcontains, -⟩ := exists_contains hs hmap hst' id
    rw [hget, hcontains, Except.map, Option.isSome_map]
  · have hnot := FunctionRecord.not_isEmbedded_iff.mpr hr
    rw [upsert_of_not_isEmbedded hnot, upsertOutcome, hnot, if_neg Bool.false_ne_true]

end VectorStore

/-! ## The collection in memory -/

namespace MemoryCollection

variable {c : MemoryCollection} {m : String → Option Row}

/-- Nothing fails, and the rows are those of the map. -/
def HoldsMap (c : MemoryCollection) (m : String → Option Row) : Prop :=
  c.faults = [] ∧ ∀ id, c.rows.find? (·.id == id) = m id

theorem find?_putRow (row : Row) (rows : List Row) (id : String) :
    (putRow row rows).find? (·.id == id)
      = if row.id = id then some row else rows.find? (·.id == id) := by
  induction rows with
  | nil =>
    rw [putRow, List.find?_cons, List.find?_nil]
    by_cases hid : row.id = id
    · rw [if_pos hid, beq_iff_eq.mpr hid]
    · rw [if_neg hid, beq_eq_false_iff_ne.mpr hid]
  | cons r rows ih =>
    rw [putRow]
    by_cases hr : r.id = row.id
    · rw [if_pos (beq_iff_eq.mpr hr), List.find?_cons, List.find?_cons, hr]
      by_cases hid : row.id = id
      · rw [if_pos hid, beq_iff_eq.mpr hid]
      · rw [if_neg hid, beq_eq_false_iff_ne.mpr hid]
    · rw [if_neg (mt beq_iff_eq.mp hr), List.find?_cons, List.find?_cons, ih]
      by_cases hid : row.id = id
      · rw [if_pos hid, if_pos hid, beq_eq_false_iff_ne.mpr fun h ↦ hr (h.trans hid.symm)]
      · rw [if_neg hid, if_neg hid]

/-- The id that is asked for is the one that the literal decodes to. -/
theorem askedId?_append {literal id : String} (h : Json.read literal = .ok (.text id)) :
    askedId? (idStart ++ literal) = some id := by
  rw [askedId?, String.toList_append, if_pos (List.isPrefixOf_iff_prefix.mpr (List.prefix_append _ _)),
    List.drop_left, String.ofList_toList, h]

theorem call_eq_answer (h : c.faults = []) (x : CollectionCall) :
    service.call x c = answer x { c with log := c.log ++ [x] } := by
  obtain ⟨isThere, schema, rows, faults, calls, log, notices⟩ := c
  subst h
  rfl

theorem isMap_service : service.IsMap HoldsMap where
  upsert {c m} h row := by
    refine ⟨_, call_eq_answer h.1 _, h.1, fun id ↦ ?_⟩
    refine (find?_putRow row c.rows id).trans ?_
    rw [Function.update_apply, h.2 id]
    exact if_congr eq_comm rfl rfl
  flush h := ⟨_, call_eq_answer h.1 _, h⟩
  query {c m} h literal id hliteral fields := by
    have hrows : matching (idStart ++ literal) c.rows = (m id).toList := by
      rw [matching, askedId?_append hliteral, ← h.2 id]
    exact ⟨_, (call_eq_answer h.1 _).trans (Prod.ext (congrArg Except.ok hrows) rfl), h⟩

end MemoryCollection

/-! ## Ids that look like expressions -/

/-- Ids with quotes, backslashes, a control character and characters beyond ASCII; the first one is
stored twice, and the last record has no embedding. -/
def awkwardRecords : List FunctionRecord :=
  [⟨"a\" or id != \"", "f", "/a.ts", "old", some [.whole 1], some "function f", 1, 2⟩,
    ⟨"\\\"", "g", "/a.ts", "second", some [.whole 2], none, 3, 4⟩,
    ⟨"\x01é😀", "h", "/b.ts", "third", some [.whole 3], some "h", 5, 6⟩,
    ⟨"a\" or id != \"", "f", "/a.ts", "new", some [.whole 4], some "function f(x, y)", 1, 7⟩,
    ⟨"\\\"", "g", "/a.ts", "lost", none, some "g", 3, 9⟩]

/-- A store over an empty collection, which keeps ten characters of code. -/
def awkwardStore : VectorStore MemoryCollection :=
  ⟨MemoryCollection.service, ⟨"functions", 1, "localhost", 19530, 10, 5⟩, true⟩

theorem get_after_upserts_awkward : ∃ c,
    awkwardStore.upsertAll awkwardRecords (.new true []) = ([.ok (), .ok (), .ok (), .ok (),
      .error (.storage "record \\\" has no embedding" none)], c) ∧
    (awkwardStore.get "a\" or id != \"" c).1
      = .ok (some ⟨"a\" or id != \"", "f", "/a.ts", "new", none, some "function f", 1, 7⟩) ∧
    (awkwardStore.get "\\\"" c).1
      = .ok (some ⟨"\\\"", "g", "/a.ts", "second", none, some "", 3, 4⟩) ∧
    (awkwardStore.get "a" c).1 = .ok none ∧ (awkwardStore.contains "\x01é😀" c).1 = .ok true := by
  have hempty : (MemoryCollection.new true []).HoldsMap fun _ ↦ none := ⟨rfl, fun _ ↦ rfl⟩
  obtain ⟨c, hupserts, hget, hcontains, -⟩ := VectorStore.get_after_upserts (s := awkwardStore) rfl
    MemoryCollection.isMap_service hempty awkwardRecords
  refine ⟨c, hupserts, (hget _).trans ?_, (hget _).trans ?_, (hget _).trans ?_, ?_⟩
  · rfl
  · rfl
  · rfl
  · rw [hcontains, hget]
    rfl

end Records

end CodeAtlas
