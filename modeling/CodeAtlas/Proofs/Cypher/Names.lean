import CodeAtlas.Proofs.Cypher.Calls

/-!
# Names in statements

Labels, types and names of properties become part of a statement's text. Each of them is looked at
before anything is sent, so a statement is either its template with the names in their places, or not
made at all, and then the first name that is not accepted is to blame (`checked`). The names of a call
are looked at in the order of their places.

An identifier is accepted, and so is an identifier with a line feed behind it.
-/

namespace CodeAtlas.Cypher

variable {σ α β : Type}

/-! ## Identifiers -/

/-- Letters, digits and underscores, no digit at the start. -/
def IsIdentifier (name : String) : Prop :=
  ∃ c rest, name.toList = c :: rest ∧ (c.isAlpha ∨ c = '_') ∧
    ∀ d ∈ rest, d.isAlphanum ∨ d = '_'

/-- An identifier with a line feed behind it. -/
def IsIdentifierLine (name : String) : Prop := ∃ base, IsIdentifier base ∧ name = base ++ "\n"

def IsAccepted (name : String) : Prop := isIdentifier name.toList = true

instance : DecidablePred IsAccepted := fun _ ↦ inferInstanceAs (Decidable (_ = _))

theorem isIdentifierStart_iff (c : Char) : isIdentifierStart c = true ↔ c.isAlpha ∨ c = '_' := by
  have hupper : c.isUpper = true ↔ 'A' ≤ c ∧ c ≤ 'Z' := decide_eq_true_iff
  have hlower : c.isLower = (decide ('a' ≤ c) && decide (c ≤ 'z')) := rfl
  have halpha : c.isAlpha = (c.isUpper || c.isLower) := rfl
  simp only [isIdentifierStart, halpha, hupper, hlower, Bool.or_eq_true, Bool.and_eq_true,
    decide_eq_true_eq, beq_iff_eq]

theorem isIdentifierPart_iff (c : Char) : isIdentifierPart c = true ↔ c.isAlphanum ∨ c = '_' := by
  have hpart : isIdentifierPart c = (isIdentifierStart c || c.isDigit) := rfl
  have halphanum : c.isAlphanum = (c.isAlpha || c.isDigit) := rfl
  rw [hpart, halphanum, Bool.or_eq_true, Bool.or_eq_true, isIdentifierStart_iff, or_right_comm]

theorem isIdentifier_cons_iff (c : Char) (rest : List Char) (hrest : rest.getLast? ≠ some '\n') :
    isIdentifier (c :: rest) = true ↔
      (c.isAlpha ∨ c = '_') ∧ ∀ d ∈ rest, d.isAlphanum ∨ d = '_' := by
  have hlast : (rest.getLast? == some '\n') = false := beq_eq_false_iff_ne.mpr hrest
  simp only [isIdentifier, hlast, Bool.false_eq_true, if_false, Bool.and_eq_true, List.all_eq_true,
    isIdentifierStart_iff, isIdentifierPart_iff]

theorem isIdentifier_line_iff (c : Char) (rest : List Char) :
    isIdentifier (c :: (rest ++ ['\n'])) = true ↔
      (c.isAlpha ∨ c = '_') ∧ ∀ d ∈ rest, d.isAlphanum ∨ d = '_' := by
  simp only [isIdentifier, List.getLast?_concat, beq_self_eq_true, if_true, List.dropLast_concat,
    Bool.and_eq_true, List.all_eq_true, isIdentifierStart_iff, isIdentifierPart_iff]

theorem isAccepted_iff (name : String) :
    IsAccepted name ↔ IsIdentifier name ∨ IsIdentifierLine name := by
  rw [IsAccepted]
  constructor
  · intro h
    cases hname : name.toList with
    | nil =>
      rw [hname] at h
      exact absurd h Bool.false_ne_true
    | cons c rest =>
      rw [hname] at h
      -- the test drops a line feed at the end, so this is where the two kinds part
      by_cases hlast : rest.getLast? = some '\n'
      · obtain ⟨rest, rfl⟩ := List.getLast?_eq_some_iff.mp hlast
        refine Or.inr ⟨String.ofList (c :: rest), ⟨c, rest, String.toList_ofList, ?_⟩, ?_⟩
        · exact (isIdentifier_line_iff c rest).mp h
        · apply String.toList_injective
          rw [hname, String.toList_append, String.toList_ofList]
          rfl
      · exact Or.inl ⟨c, rest, hname, (isIdentifier_cons_iff c rest hlast).mp h⟩
  · rintro (⟨c, rest, hname, hparts⟩ | ⟨base, ⟨c, rest, hname, hparts⟩, rfl⟩)
    · have hlast : rest.getLast? ≠ some '\n' := by
        intro h
        have hpart := hparts.2 _ (List.mem_of_getLast? h)
        exact absurd hpart (by decide)
      rw [hname]
      exact (isIdentifier_cons_iff c rest hlast).mpr hparts
    · rw [String.toList_append, hname]
      exact (isIdentifier_line_iff c rest).mpr hparts

theorem IsIdentifierLine.not_isIdentifier {name : String} (h : IsIdentifierLine name) :
    ¬ IsIdentifier name := by
  obtain ⟨base, ⟨c, rest, hbase, -⟩, rfl⟩ := h
  rintro ⟨c', rest', hname, -, hparts⟩
  rw [String.toList_append, hbase, List.cons_append, List.cons.injEq] at hname
  have hmem : '\n' ∈ rest' := hname.2 ▸ List.mem_append_right rest List.mem_cons_self
  exact absurd (hparts '\n' hmem) (by decide)

/-! ## Names that are looked at -/

/-- The value, if all names are accepted. Otherwise the first one that is not is to blame. -/
def checked : List String → α → Except Fault α
  | [], a => .ok a
  | name :: rest, a =>
    if IsAccepted name then checked rest a else .error (.invalidIdentifier name)

theorem checked_of_accepted {names : List String} (h : ∀ name ∈ names, IsAccepted name) (a : α) :
    checked names a = .ok a := by
  induction names with
  | nil => rfl
  | cons name rest ih =>
    rw [List.forall_mem_cons] at h
    rw [checked, if_pos h.1]
    exact ih h.2

theorem checked_of_not {names : List String} (h : ¬ ∀ name ∈ names, IsAccepted name) (a : α) :
    ∃ name ∈ names, checked names a = .error (.invalidIdentifier name) := by
  induction names with
  | nil => exact absurd (fun _ h ↦ absurd h List.not_mem_nil) h
  | cons name rest ih =>
    rw [checked]
    by_cases haccepted : IsAccepted name
    · rw [if_pos haccepted]
      obtain ⟨bad, hbad, hchecked⟩ := ih fun hrest ↦ h (List.forall_mem_cons.mpr ⟨haccepted, hrest⟩)
      exact ⟨bad, List.mem_cons_of_mem _ hbad, hchecked⟩
    · rw [if_neg haccepted]
      exact ⟨name, List.mem_cons_self, rfl⟩

/-- Names are looked at one group after the other. -/
theorem checked_bind (names more : List String) {a : α} {b : β} {f : α → Except Fault β}
    (h : f a = checked more b) : (checked names a >>= f) = checked (names ++ more) b := by
  induction names with
  | nil => exact h
  | cons name rest ih =>
    rw [List.cons_append, checked, checked]
    by_cases haccepted : IsAccepted name
    · rw [if_pos haccepted, if_pos haccepted, ih]
    · rw [if_neg haccepted, if_neg haccepted]
      rfl

theorem checked_bind_pure (names : List String) (a : α) (f : α → β) :
    (checked names a >>= fun a ↦ pure (f a)) = checked names (f a) := by
  have h := checked_bind names [] (a := a) (b := f a) (f := fun a ↦ pure (f a)) rfl
  rwa [List.append_nil] at h

theorem checked_map (names : List String) (a : α) (f : α → β) :
    (checked names a).map f = checked names (f a) :=
  (bind_pure_comp f (checked names a)).symm.trans (checked_bind_pure names a f)

theorem mapM_checked {γ : Type} {f : γ → Except Fault α} (key : γ → String) (g : γ → α)
    (hf : ∀ c, f c = checked [key c] (g c)) (cs : List γ) :
    cs.mapM f = checked (cs.map key) (cs.map g) := by
  induction cs with
  | nil => rfl
  | cons c cs ih =>
    rw [List.mapM_cons, hf, ih]
    exact checked_bind [key c] (cs.map key) (checked_bind_pure _ _ _)

section Courses

variable {P : α → List Event → Except Fault β → Prop} {names : List String} {a : α}
  {events : List Event} {x : Except Fault β}

/-- If all names are accepted, something is sent. -/
theorem IsCourse.of_accepted (h : IsCourse (checked names a) P events x)
    (hnames : ∀ name ∈ names, IsAccepted name) : P a events x := by
  rw [checked_of_accepted hnames] at h
  cases h with
  | refused h => exact nomatch h
  | sent h hsent =>
    obtain rfl := Except.ok.inj h
    exact hsent

/-- If a name is not accepted, nothing happens. -/
theorem IsCourse.of_not_accepted (h : IsCourse (checked names a) P events x)
    (hnames : ¬ ∀ name ∈ names, IsAccepted name) :
    events = [] ∧ ∃ name ∈ names, x = .error (.invalidIdentifier name) := by
  obtain ⟨name, hname, hchecked⟩ := checked_of_not hnames a
  rw [hchecked] at h
  cases h with
  | refused h =>
    obtain rfl := Except.error.inj h
    exact ⟨rfl, name, hname, rfl⟩
  | sent h hsent => exact nomatch h

end Courses

theorem identifier_eq (name : String) : identifier name = checked [name] name := rfl

/-! ## Templates -/

/-- The names of properties. -/
def keysOf (properties : Props) : List String := properties.map Prod.fst

/-- The properties that an element has to have, in a pattern. -/
def propertyText (parameter : String) (properties : Props) : String :=
  if properties.isEmpty then ""
  else
    let fields := properties.map fun p ↦ p.1 ++ ": $" ++ parameter ++ "." ++ p.1
    " \x7b" ++ String.intercalate ", " fields ++ "\x7d"

theorem propertyMap_eq (parameter : String) (properties : Props) :
    propertyMap parameter properties =
      checked (keysOf properties) (propertyText parameter properties) := by
  cases properties with
  | nil => rfl
  | cons p rest =>
    have hfields := mapM_checked Prod.fst (fun p : String × Datum ↦
      p.1 ++ ": $" ++ parameter ++ "." ++ p.1) (fun p ↦ checked_bind_pure [p.1] p.1 fun name ↦
        name ++ ": $" ++ parameter ++ "." ++ name) (p :: rest)
    rw [propertyMap, propertyText, List.isEmpty_cons, if_neg Bool.false_ne_true,
      if_neg Bool.false_ne_true]
    exact (congrArg (· >>= _) hfields).trans (checked_bind_pure _ _ _)

def nodeText (variableName label parameter : String) (key : Props) : String :=
  "(" ++ variableName ++ ":" ++ label ++ propertyText parameter key ++ ")"

def typeText (type : String) (attrs : Props) : String :=
  "[r:" ++ type ++ propertyText "attrs" attrs ++ "]"

theorem nodePattern_eq (variableName label parameter : String) (key : Props) :
    nodePattern variableName label parameter key =
      checked (label :: keysOf key) (nodeText variableName label parameter key) := by
  rw [nodePattern, identifier_eq, propertyMap_eq]
  exact checked_bind [label] (keysOf key) (checked_bind_pure _ _ _)

theorem typePattern_eq (type : String) (attrs : Props) :
    typePattern type attrs = checked (type :: keysOf attrs) (typeText type attrs) := by
  rw [typePattern, identifier_eq, propertyMap_eq]
  exact checked_bind [type] (keysOf attrs) (checked_bind_pure _ _ _)

namespace WriteCall

/-- The names that the call is given, in the order of their places. -/
def names : WriteCall → List String
  | mergeNode label key => label :: keysOf key
  | mergeRelationship type fromLabel fromKey toLabel toKey attrs =>
    (fromLabel :: keysOf fromKey) ++ ((toLabel :: keysOf toKey) ++ (type :: keysOf attrs))
  | deleteRelationship type fromLabel fromKey toLabel toKey attrs =>
    (fromLabel :: keysOf fromKey) ++ ((type :: keysOf attrs) ++ (toLabel :: keysOf toKey))
  | clear => []

/-- The statement with the names in their places, whatever they are. -/
def template : WriteCall → Statement
  | mergeNode label key =>
    .with ("MERGE " ++ nodeText "n" label "key" key ++ " RETURN elementId(n)") [("key", .map key)]
  | mergeRelationship type fromLabel fromKey toLabel toKey attrs =>
    .with (indented ["MERGE " ++ nodeText "a" fromLabel "from_key" fromKey,
        "MERGE " ++ nodeText "b" toLabel "to_key" toKey,
        "MERGE (a)-" ++ typeText type attrs ++ "->(b)", "RETURN elementId(r)"])
      [("from_key", .map fromKey), ("to_key", .map toKey), ("attrs", .map attrs)]
  | deleteRelationship type fromLabel fromKey toLabel toKey attrs =>
    .with (indented ["MATCH " ++ nodeText "a" fromLabel "from_key" fromKey,
        "      -" ++ typeText type attrs ++ "->", "      " ++ nodeText "b" toLabel "to_key" toKey,
        "DELETE r", "RETURN count(r)"])
      [("from_key", .map fromKey), ("to_key", .map toKey), ("attrs", .map attrs)]
  | clear => Cypher.clear

theorem statement_eq (c : WriteCall) : c.statement = checked c.names c.template := by
  cases c with
  | mergeNode label key =>
    rw [statement, Cypher.mergeNode, nodePattern_eq]
    exact checked_bind_pure _ _ _
  | mergeRelationship type fromLabel fromKey toLabel toKey attrs =>
    rw [statement, Cypher.mergeRelationship, nodePattern_eq, nodePattern_eq, typePattern_eq]
    exact checked_bind _ _ (checked_bind _ _ (checked_bind_pure _ _ _))
  | deleteRelationship type fromLabel fromKey toLabel toKey attrs =>
    rw [statement, Cypher.deleteRelationship, nodePattern_eq, nodePattern_eq, typePattern_eq]
    exact checked_bind _ _ (checked_bind _ _ (checked_bind_pure _ _ _))
  | clear => rfl

end WriteCall

namespace ReadCall

/-- The names that the call is given, in the order of their places. -/
def names : ReadCall → List String
  | findRelationships type fromLabel fromKey attrs =>
    (fromLabel :: keysOf fromKey) ++ (type :: keysOf attrs)
  | getNode label key => label :: keysOf key
  | nodeById _ | query .. | expandCalls _ | stats => []

/-- The statements with the names in their places, whatever they are. -/
def templates : ReadCall → List Statement
  | findRelationships type fromLabel fromKey attrs =>
    [.with (indented ["MATCH " ++ nodeText "a" fromLabel "from_key" fromKey,
        "      -" ++ typeText type attrs ++ "->(b)",
        "RETURN properties(b) AS target, properties(r) AS properties"])
      [("from_key", .map fromKey), ("attrs", .map attrs)]]
  | getNode label key =>
    [.with ("MATCH " ++ nodeText "n" label "key" key ++ " RETURN n LIMIT 1") [("key", .map key)]]
  | nodeById id => [Cypher.nodeById id]
  | query text parameters => [.with text parameters]
  | expandCalls functionId => [Cypher.expandCalls functionId]
  | stats => [countNodes, countRelationships]

theorem statements_eq (c : ReadCall) : c.statements = checked c.names c.templates := by
  cases c with
  | findRelationships type fromLabel fromKey attrs =>
    rw [statements, names, templates]
    refine (congrArg _ ?_).trans (checked_map _ _ fun q ↦ [q])
    rw [Cypher.findRelationships, nodePattern_eq, typePattern_eq]
    exact checked_bind _ _ (checked_bind_pure _ _ _)
  | getNode label key =>
    rw [statements, names, templates]
    refine (congrArg _ ?_).trans (checked_map _ _ fun q ↦ [q])
    rw [Cypher.getNode, nodePattern_eq]
    exact checked_bind_pure _ _ _
  | nodeById id => rfl
  | query text parameters => rfl
  | expandCalls functionId => rfl
  | stats => rfl

end ReadCall

end CodeAtlas.Cypher
