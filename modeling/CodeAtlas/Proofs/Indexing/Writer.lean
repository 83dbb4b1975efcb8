import CodeAtlas.Proofs.Graph.Textual

/-!
# Writes and what is wanted

A write that is not refused has one outcome, whoever answers it, and the comparison of what is found
with what is wanted is a search in a list as long as only scalars are found.
-/

namespace CodeAtlas.Indexing

open CodeAtlas.Graph Program

/-! ## Writes that are not refused -/

section Writes

variable {γ α : Type} {answers : Answering γ} {g h : γ}

theorem gives_orRefused {p : Program α} {message : Fault → String} {substitute a : α}
    (hp : p.Gives answers g (.ok a) h) :
    (orRefused p message substitute).Gives answers g (.ok a) h :=
  hp.attempt.bind gives_pure

theorem gives_mergeFile {path id : String}
    (hr : answers.Only (.mergeNode fileLabel (fileKey (.text path))) g (.ok id) h) :
    (mergeFile path).Gives answers g (.ok (some id)) h :=
  gives_orRefused (gives_request hr).map

theorem gives_mergeFunction {name path id : String} (hr : answers.Only
      (.mergeNode functionLabel (functionKey (.text name) (.text path))) g (.ok id) h) :
    (mergeFunction name path).Gives answers g (.ok (some id)) h :=
  gives_orRefused (gives_request hr).map

theorem gives_mergeImport {source target clause id : String} (hr : answers.Only
      (.mergeRelationship importsFrom fileLabel (fileKey (.text source)) fileLabel
        (fileKey (.text target)) (some [("clause", .text clause)])) g (.ok id) h) :
    (mergeImport source target clause).Gives answers g (.ok true) h :=
  gives_orRefused ((gives_request hr).bind gives_pure)

theorem gives_mergeCall {callerName callerPath calleeName id : String} {calleePath : Datum}
    (hr : answers.Only (.mergeRelationship calls functionLabel
      (functionKey (.text callerName) (.text callerPath)) functionLabel
      (functionKey (.text calleeName) calleePath) none) g (.ok id) h) :
    (mergeCall callerName callerPath calleeName calleePath).Gives answers g (.ok true) h :=
  gives_orRefused ((gives_request hr).bind gives_pure)

theorem gives_deleteImport {source : String} {target clause : Datum} {n : Nat} (hr : answers.Only
      (.deleteRelationship importsFrom fileLabel (fileKey (.text source)) fileLabel
        (fileKey target) (some [("clause", clause)])) g (.ok n) h) :
    (deleteImport source target clause).Gives answers g (.ok n) h :=
  gives_orRefused (gives_request hr)

theorem gives_deleteCall {callerName callerPath : String} {calleeName calleePath : Datum} {n : Nat}
    (hr : answers.Only (.deleteRelationship calls functionLabel
      (functionKey (.text callerName) (.text callerPath)) functionLabel
      (functionKey calleeName calleePath) none) g (.ok n) h) :
    (deleteCall callerName callerPath calleeName calleePath).Gives answers g (.ok n) h :=
  gives_orRefused (gives_request hr)

end Writes

/-! ## What is wanted -/

/-- Is the pair of values a wanted name with a wanted path? -/
def wants (wanted : List (String × Datum)) (name path : Datum) : Bool :=
  wanted.any fun w ↦ (Datum.text w.1).same name && w.2.same path

theorem checkComparable_of_scalar {d : Datum} (hd : d.IsScalar) : checkComparable d = .ok () := by
  cases d with
  | float | date | list | map => exact hd.elim
  | _ => rfl

theorem isWanted_of_scalar (wanted : List (String × Datum)) {name path : Datum}
    (hname : name.IsScalar) (hpath : path.IsScalar) :
    isWanted wanted name path = .ok (wants wanted name path) := by
  rw [isWanted, checkComparable_of_scalar hname, checkComparable_of_scalar hpath]
  rfl

theorem wants_text {wanted : List (String × Datum)} (htext : ∀ w ∈ wanted, w.2.IsText)
    {name path : String} :
    wants wanted (.text name) (.text path) ↔ (name, .text path) ∈ wanted := by
  rw [wants, List.any_eq_true]
  constructor
  · rintro ⟨⟨c, d⟩, hw, hsame⟩
    rw [Bool.and_eq_true, Datum.same_text_left, Datum.text.injEq] at hsame
    obtain ⟨q, rfl⟩ : ∃ q, d = .text q := by
      cases d with
      | text q => exact ⟨q, rfl⟩
      | _ => exact (htext _ hw).elim
    obtain ⟨hname, hpath⟩ := hsame
    rw [Datum.same_text_left] at hpath
    rw [hname, hpath]
    exact hw
  · intro hw
    exact ⟨_, hw, by rw [Bool.and_eq_true, Datum.same_text_left, Datum.same_text_left]; simp⟩

/-! ## Deleting what is not wanted

Imports and calls are cleaned up in the same way. The program goes through the edges that were found
and deletes what a name and a path on the edge stand for, unless the two are wanted. -/

/-- The program deletes in this way. -/
structure DeletesUnwanted (wanted : List (String × Datum)) (name path : Edge → Datum)
    (delete : Datum → Datum → Program Nat) (p : List Edge → Program Unit) : Prop where
  nil : p [] = pure ()
  cons : ∀ e edges, p (e :: edges) = (do
    if !(← ofExcept (isWanted wanted (name e) (path e))) then
      let _ ← delete (name e) (path e)
    p edges)

/-- Does an edge that is not wanted stand for the relationship? -/
def isUnwanted (wanted : List (String × Datum)) (name path : Edge → Datum)
    (doomed : Datum → Datum → Relationship → Bool) (edges : List Edge) (r : Relationship) : Bool :=
  edges.any fun e ↦ !wants wanted (name e) (path e) && doomed (name e) (path e) r

/-- Together, the deletions remove what some unwanted edge stands for. -/
theorem DeletesUnwanted.gives {γ : Type} {answers : Answering γ} {wanted : List (String × Datum)}
    {name path : Edge → Datum} {delete : Datum → Datum → Program Nat} {p : List Edge → Program Unit}
    (hp : DeletesUnwanted wanted name path delete p) (state : Graph → γ)
    {doomed : Datum → Datum → Relationship → Bool}
    (hdelete : ∀ {d d'}, d.IsScalar → d'.IsScalar → ∀ g, ∃ n,
      (delete d d').Gives answers (state g) (.ok n) (state (g.without (doomed d d'))))
    {edges : List Edge} (hedges : ∀ e ∈ edges, (name e).IsScalar ∧ (path e).IsScalar) (g : Graph) :
    (p edges).Gives answers (state g) (.ok ())
      (state (g.without (isUnwanted wanted name path doomed edges))) := by
  induction edges generalizing g with
  | nil =>
    have hself : g.without (isUnwanted wanted name path doomed []) = g :=
      without_eq_self fun _ _ ↦ rfl
    rw [hp.nil, hself]
    exact gives_pure
  | cons e edges ih =>
    rw [List.forall_mem_cons] at hedges
    obtain ⟨⟨hname, hpath⟩, hedges⟩ := hedges
    rw [hp.cons, isWanted_of_scalar wanted hname hpath]
    refine gives_ofExcept.bind ?_
    cases hwants : wants wanted (name e) (path e) with
    | true =>
      have hsame : isUnwanted wanted name path doomed (e :: edges)
          = isUnwanted wanted name path doomed edges := by
        funext r
        rw [isUnwanted, List.any_cons, hwants]
        rfl
      rw [hsame]
      exact ih hedges g
    | false =>
      have hmore : isUnwanted wanted name path doomed (e :: edges)
          = fun r ↦ doomed (name e) (path e) r || isUnwanted wanted name path doomed edges r := by
        funext r
        rw [isUnwanted, List.any_cons, hwants]
        rfl
      obtain ⟨n, hn⟩ := hdelete hname hpath g
      rw [hmore, ← without_without]
      exact hn.bind (ih hedges _)

end CodeAtlas.Indexing
