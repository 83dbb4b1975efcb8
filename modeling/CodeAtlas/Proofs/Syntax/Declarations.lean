import CodeAtlas.Proofs.Syntax.Walking
import Mathlib.Data.List.Nodup

/-!
# What an outline takes from a tree

The walk for declarations carries along where it is, and looks at a function only if that is the top
of the program or an export there. Seen from the tree as a whole, these are addresses of one and of two
numbers (`placeAt_ne_inner_iff`), whatever is nested below. So an outline lists the named functions that
are statements of the program or exported by one, and the imports of all import statements that are not
inside another declaration, each list in text order (`records_ofTree`). There is no outline if one of
these imports is from what can be no path (`ofTree_eq_none_iff`), and only then.
-/

namespace CodeAtlas.Syntax

theorem foldl_eq_eraseDups {α : Type} [BEq α] [LawfulBEq α] (xs seen : List α) :
    (xs.foldl (fun acc x ↦ if acc.contains x then acc else x :: acc) seen).reverse
      = seen.reverse ++ (xs.filter fun x ↦ !seen.contains x).eraseDups := by
  induction xs generalizing seen with
  | nil => simp
  | cons x xs ih =>
    rw [List.foldl_cons, ih, List.filter_cons]
    cases hseen : seen.contains x with
    | true => simp
    | false =>
      simp only [Bool.false_eq_true, if_false, Bool.not_false, if_true, List.reverse_cons,
        List.eraseDups_cons, List.append_assoc, List.singleton_append, List.filter_filter]
      congr 3
      refine List.filter_congr fun y _ ↦ ?_
      simp [Bool.not_or]

/-- Only the first occurrence of each element is kept. -/
theorem distinct_eq_eraseDups {α : Type} [BEq α] [LawfulBEq α] (xs : List α) :
    distinct xs = xs.eraseDups := by
  rw [distinct, foldl_eq_eraseDups]
  simp

theorem nodup_foldl {α : Type} [BEq α] [LawfulBEq α] (xs : List α) {seen : List α}
    (h : seen.Nodup) : (xs.foldl (fun acc x ↦ if acc.contains x then acc else x :: acc) seen).Nodup := by
  induction xs generalizing seen with
  | nil => exact h
  | cons x xs ih =>
    rw [List.foldl_cons]
    apply ih
    split
    · exact h
    · rename_i hnew
      exact List.nodup_cons.mpr ⟨fun hmem ↦ hnew (List.contains_iff_mem.mpr hmem), h⟩

theorem nodup_distinct {α : Type} [BEq α] [LawfulBEq α] (xs : List α) : (distinct xs).Nodup :=
  List.nodup_reverse.mpr (nodup_foldl xs List.nodup_nil)

theorem mapM_eq_none_iff {α β : Type} {f : α → Option β} {xs : List α} :
    xs.mapM f = none ↔ ∃ x ∈ xs, f x = none := by
  induction xs with
  | nil => simp
  | cons x xs ih =>
    rw [List.mapM_cons, List.exists_mem_cons_iff, ← ih]
    cases f x with
    | none => simp
    | some y =>
      cases xs.mapM f with
      | none | some _ => simp

theorem flatten_of_mapM {α β : Type} {f : α → Option (List β)} {xs : List α} {ys : List (List β)}
    (h : xs.mapM f = some ys) : ys.flatten = xs.flatMap fun x ↦ (f x).getD [] := by
  induction xs generalizing ys with
  | nil =>
    obtain rfl := Option.some.inj h
    rfl
  | cons x xs ih =>
    rw [List.mapM_cons] at h
    obtain ⟨y, hy, h⟩ := Option.bind_eq_some_iff.mp h
    obtain ⟨zs, hzs, h⟩ := Option.bind_eq_some_iff.mp h
    obtain rfl := Option.some.inj h
    rw [List.flatten_cons, List.flatMap_cons, hy, Option.getD_some, ih hzs]

namespace Tree

/-! ## Places and addresses -/

/-- The place of the node at an address. -/
def placeAt (place : Place) : List Nat → Tree → Place
  | [], _ => place
  | i :: a, t => t.children[i]?.elim .inner (placeAt (place.below t.kind) a)

variable {place : Place} {a : List Nat} {t n : Tree}

theorem placeAt_cons {i : Nat} {c : Tree} (h : t.children[i]? = some c) :
    placeAt place (i :: a) t = placeAt (place.below t.kind) a c := by
  rw [placeAt, h, Option.elim_some]

theorem declarationsAll_eq (place : Place) (ts : List Tree) :
    declarationsAll place ts = ts.flatMap (declarations place) := by
  induction ts with
  | nil => rfl
  | cons t ts ih => rw [declarationsAll, ih, List.flatMap_cons]

/-- **The declarations of a tree** are those that a walk comes by which stops at them. -/
theorem declarations_eq (place : Place) (t : Tree) :
    t.declarations place = (t.visited isDeclaring).filterMap fun a ↦ (t.at? a).bind fun n ↦
      if isDeclaring n.kind then some (placeAt place a t, n) else none := by
  induction t using induct generalizing place with
  | node k r s cs ih =>
    rw [declarations, visited_eq, List.filterMap_cons, kind, children]
    cases hk : isDeclaring k with
    | true => simp [at?, kind, hk, placeAt]
    | false =>
      have hfst : cs = cs.zipIdx.map Prod.fst := (List.zipIdx_map_fst 0 cs).symm
      rw [at?, Option.bind_some, kind, hk, if_neg Bool.false_ne_true, if_neg Bool.false_ne_true,
        if_neg Bool.false_ne_true, declarationsAll_eq, List.filterMap_flatMap]
      conv_lhs => rw [hfst, List.flatMap_map]
      refine List.flatMap_congr fun e he ↦ ?_
      have hchild : (Tree.node k r s cs).children[e.2]? = some e.1 :=
        List.mem_zipIdx_iff_getElem?.mp he
      rw [List.filterMap_map, ih e.1 (List.fst_mem_of_mem_zipIdx he)]
      refine List.filterMap_congr fun a _ ↦ ?_
      rw [Function.comp_apply, at?_cons hchild, placeAt_cons hchild, kind]

/-- Is the root a program, and nothing else in the tree? -/
def IsProgram (t : Tree) : Prop := ∀ a n, t.at? a = some n → (n.kind = .program ↔ a = [])

instance (t : Tree) : Decidable t.IsProgram :=
  decidable_of_iff
    (∀ a ∈ t.visited fun _ ↦ false, ∀ n ∈ t.at? a, (n.kind = .program ↔ a = []))
    ⟨fun h a n hn ↦ h a (mem_visited.mpr ⟨⟨n, hn⟩, fun _ _ _ _ _ ↦ rfl⟩) n hn,
      fun h a _ n hn ↦ h a n hn⟩

/-- Below anything but a program there is no way back to the top. -/
theorem placeAt_of_lacks (h : ∀ b n, t.at? b = some n → n.kind ≠ .program) (hplace : place ≠ .top) :
    placeAt place a t = if a = [] then place else .inner := by
  induction a generalizing place t with
  | nil => rfl
  | cons i a ih =>
    rw [if_neg (List.cons_ne_nil _ _), placeAt]
    cases hc : t.children[i]? with
    | none => rfl
    | some c =>
      have hbelow : place.below t.kind = .inner := by
        simp [Place.below, h [] t rfl, hplace]
      rw [Option.elim_some, hbelow, ih (fun b n hn ↦ h (i :: b) n ((at?_cons hc).trans hn)) (by decide),
        ite_self]

/-- Is the address that of a statement, or of something that a statement exports? -/
def IsOuter (t : Tree) (a : List Nat) : Prop :=
  (∃ i, a = [i]) ∨ ∃ i j e, a = [i, j] ∧ t.at? [i] = some e ∧ e.kind = .exportStatement

/-- **The place of a node** is an outer one by the length of its address. -/
theorem placeAt_ne_inner_iff (h : t.IsProgram) (hn : t.at? a = some n) :
    placeAt .inner a t ≠ .inner ↔ t.IsOuter a := by
  cases a with
  | nil => exact iff_of_false (fun hne ↦ hne rfl) (by simp [IsOuter])
  | cons i a =>
    obtain ⟨c, hc, hn⟩ := at?_cons_eq_some.mp hn
    have hat : t.at? [i] = some c := at?_cons hc
    have htop : Place.inner.below t.kind = .top := by
      rw [(h [] t rfl).mpr rfl]
      rfl
    have hkind : c.kind ≠ .program := fun hprogram ↦
      List.cons_ne_nil _ _ ((h [i] c hat).mp hprogram)
    rw [placeAt_cons hc, htop]
    cases a with
    | nil => exact iff_of_true Place.noConfusion (Or.inl ⟨i, rfl⟩)
    | cons j a =>
      obtain ⟨d, hd, hn⟩ := at?_cons_eq_some.mp hn
      have hlacks : ∀ b n, d.at? b = some n → n.kind ≠ .program := by
        intro b n hb hprogram
        have hbelow : t.at? (i :: j :: b) = some n := by rw [at?_cons hc, at?_cons hd, hb]
        exact List.cons_ne_nil _ _ ((h _ n hbelow).mp hprogram)
      rw [placeAt_cons hd]
      by_cases hexport : c.kind = .exportStatement
      · have hbelow : Place.top.below c.kind = .exported := by
          rw [hexport]
          rfl
        rw [hbelow, placeAt_of_lacks hlacks (by decide)]
        cases a with
        | nil => exact iff_of_true (by decide) (Or.inr ⟨i, j, c, rfl, hat, hexport⟩)
        | cons k a => exact iff_of_false (by simp) (by simp [IsOuter])
      · have hbelow : Place.top.below c.kind = .inner := by
          simp [Place.below, hkind, hexport]
        rw [hbelow, placeAt_of_lacks hlacks (by decide), ite_self]
        refine iff_of_false (fun hne ↦ hne rfl) ?_
        rintro (⟨i', heq⟩ | ⟨i', j', e, heq, he, hkind'⟩)
        · simp at heq
        · obtain ⟨rfl, -⟩ := List.cons.inj heq
          exact hexport (Option.some.inj (hat.symm.trans he) ▸ hkind')

theorem isDeclaring_of_isTopFunction (h : n.isTopFunction place = true) :
    isDeclaring n.kind = true := by
  rw [isTopFunction, Bool.and_eq_true, Bool.or_eq_true, beq_iff_eq, beq_iff_eq] at h
  rcases h.1 with hkind | hkind
  · rw [hkind]
    rfl
  · rw [hkind]
    rfl

/-- Nothing above an outer address is a declaration. -/
theorem IsOuter.isOpen (h : t.IsOuter a) (hprogram : t.IsProgram) : t.IsOpen isDeclaring a := by
  have hroot : isDeclaring t.kind = false := by
    rw [(hprogram [] t rfl).mpr rfl]
    rfl
  rcases h with ⟨i, rfl⟩ | ⟨i, j, e, rfl, he, hexport⟩
  · exact isOpen_cons.mpr ⟨hroot, fun _ _ ↦ isOpen_nil⟩
  · refine isOpen_cons.mpr ⟨hroot, fun c hc ↦ isOpen_cons.mpr ⟨?_, fun _ _ ↦ isOpen_nil⟩⟩
    obtain rfl : c = e := Option.some.inj ((at?_cons hc).symm.trans he)
    rw [hexport]
    rfl

/-! ## Nodes with a part -/

/-- The nodes that a walk for declarations comes by, with their addresses and a part of each that has
one. -/
def sites (part : List Nat → Tree → Option Tree) (t : Tree) : List (List Nat × Tree × Tree) :=
  (t.visited isDeclaring).filterMap fun a ↦ (t.at? a).bind fun n ↦
    (part a n).map fun p ↦ (a, n, p)

variable {part : List Nat → Tree → Option Tree} {p : Tree}

theorem mem_sites : (a, n, p) ∈ t.sites part
    ↔ t.at? a = some n ∧ t.IsOpen isDeclaring a ∧ part a n = some p :=
  mem_taken

theorem pairwise_sites : (t.sites part).Pairwise fun x y ↦ x.1 < y.1 :=
  pairwise_taken

/-- A part that nothing but declarations has is met with them. -/
theorem filterMap_declarations (part : Place → Tree → Option Tree)
    (hpart : ∀ place n p, part place n = some p → isDeclaring n.kind = true) :
    (t.declarations .inner).filterMap (fun f ↦ (part f.1 f.2).map fun p ↦ (f.2, p))
      = (t.sites fun a n ↦ part (placeAt .inner a t) n).map Prod.snd := by
  rw [declarations_eq, sites, List.filterMap_filterMap, List.map_filterMap]
  refine List.filterMap_congr fun a _ ↦ ?_
  cases t.at? a with
  | none => rfl
  | some n =>
    rw [Option.bind_some, Option.bind_some, Option.map_map]
    cases hp : part (placeAt .inner a t) n with
    | some p =>
      rw [if_pos (hpart _ _ _ hp), Option.bind_some, hp]
      rfl
    | none =>
      split
      · rw [Option.bind_some, hp]
        rfl
      · rfl

end Tree

/-! ## Outlines -/

namespace Outline

open Tree

/-- What is said of a function with a name. -/
def record (s : Source) (path : String) (t name : Tree) : Function where
  name := textOf s name
  path
  text := textOf s t
  startLine := lineAt s t.span.start
  endLine := lineAt s t.span.stop
  calls := match t.child? .body with
    | some body => callNames (textOf s) body
    | none => []

/-- The name of a function that is listed. -/
def functionName? (place : Tree.Place) (n : Tree) : Option Tree :=
  if n.isTopFunction place then n.child? .name else none

/-- The source of an import statement. -/
def importSource? (n : Tree) : Option Tree :=
  if n.kind = .importStatement then n.child? .source else none

/-- The imports from a source, if it names something. -/
def importsFrom (resolve : String → Option String) (text : Tree → String) (t source : Tree) :
    List Import :=
  (resolve (unquoted (text source))).elim [] fun module ↦
    (clauses text t).map fun clause ↦ ⟨clause, module⟩

variable {resolve : String → Option String} {path : String} {s : Source} {t n : Tree} {o : Outline}

/-- All that there is to an outline is read from the declarations. -/
theorem ofTree_eq_some (h : ofTree resolve path s t = some o) : ∃ imports,
    (t.declarations .inner).mapM (fun f ↦ importsOf resolve (textOf s) f.2) = some imports ∧
      o = { path
            imports := imports.flatten.eraseDups
            functions := (t.declarations .inner).filterMap (functionOf s path) } := by
  obtain ⟨imports, himports, ho⟩ := Option.bind_eq_some_iff.mp h
  refine ⟨imports, himports, ?_⟩
  rw [← distinct_eq_eraseDups]
  exact (Option.some.inj ho).symm

theorem isDeclaring_of_functionName? {place : Place} {name : Tree}
    (h : functionName? place n = some name) : isDeclaring n.kind = true := by
  rw [functionName?, Option.ite_none_right_eq_some] at h
  exact isDeclaring_of_isTopFunction h.1

theorem functionOf_eq (f : Place × Tree) : functionOf s path f
    = ((functionName? f.1 f.2).map fun name ↦ (f.2, name)).map fun p ↦ record s path p.1 p.2 := by
  rw [Option.map_map, functionName?]
  have hfunction : functionOf s path f
      = if f.2.isTopFunction f.1 then (f.2.child? .name).map (record s path f.2) else none := rfl
  rw [hfunction]
  split <;> rfl

theorem functions_ofTree (h : ofTree resolve path s t = some o) : o.functions
    = (t.sites fun a ↦ functionName? (placeAt .inner a t)).map
      fun (_, n, name) ↦ record s path n name := by
  obtain ⟨-, -, rfl⟩ := ofTree_eq_some h
  have hfunctions : (t.declarations .inner).filterMap (functionOf s path)
      = ((t.declarations .inner).filterMap fun f ↦
          (functionName? f.1 f.2).map fun name ↦ (f.2, name)).map
        fun p ↦ record s path p.1 p.2 := by
    rw [List.map_filterMap]
    exact List.filterMap_congr fun f _ ↦ functionOf_eq f
  dsimp only
  rw [hfunctions, filterMap_declarations functionName? fun _ _ _ ↦ isDeclaring_of_functionName?,
    List.map_map]
  rfl

/-- A statement without a source imports nothing, and nothing stops it. -/
theorem importsOf_eq (text : Tree → String) : importsOf resolve text n
    = (importSource? n).elim (some []) fun source ↦
      (resolve (unquoted (text source))).map fun module ↦
        (clauses text n).map fun clause ↦ ⟨clause, module⟩ := by
  rw [importsOf, importSource?]
  by_cases himport : n.kind = .importStatement
  · rw [if_pos (beq_iff_eq.mpr himport), if_pos himport]
    cases n.child? .source with
    | none => rfl
    | some source =>
      dsimp only [Option.elim_some]
      cases resolve (unquoted (text source)) with
      | none | some _ => rfl
  · rw [if_neg (by simpa using himport), if_neg himport]
    rfl

theorem isDeclaring_of_importSource? {source : Tree} (h : importSource? n = some source) :
    isDeclaring n.kind = true := by
  rw [importSource?, Option.ite_none_right_eq_some] at h
  rw [h.1]
  rfl

/-- The import statements with a source that are met as declarations are those with an address at
which a walk comes by. -/
theorem filterMap_importSource? : (t.declarations .inner).filterMap (fun f ↦
      (importSource? f.2).map fun source ↦ (f.2, source))
    = (t.sites fun _ ↦ importSource?).map Prod.snd :=
  filterMap_declarations (fun _ ↦ importSource?) fun _ _ _ ↦ isDeclaring_of_importSource?

theorem imports_ofTree (h : ofTree resolve path s t = some o) : o.imports
    = ((t.sites fun _ ↦ importSource?).flatMap
      fun (_, n, source) ↦ importsFrom resolve (textOf s) n source).eraseDups := by
  obtain ⟨imports, himports, rfl⟩ := ofTree_eq_some h
  have hfrom (n : Tree) : (importsOf resolve (textOf s) n).getD []
      = (importSource? n).elim [] (importsFrom resolve (textOf s) n) := by
    rw [importsOf_eq]
    cases importSource? n with
    | none => rfl
    | some source =>
      rw [Option.elim_some, Option.elim_some, importsFrom]
      cases resolve (unquoted (textOf s source)) with
      | none | some _ => rfl
  have hsites : (t.sites fun _ ↦ importSource?).flatMap
        (fun (_, n, source) ↦ importsFrom resolve (textOf s) n source)
      = ((t.sites fun _ ↦ importSource?).map Prod.snd).flatMap
        fun p ↦ importsFrom resolve (textOf s) p.1 p.2 := by
    rw [List.flatMap_map]
  dsimp only
  rw [flatten_of_mapM himports, hsites, ← filterMap_importSource?,
    List.filterMap_eq_flatMap_toList, List.flatMap_assoc]
  congr 1
  refine List.flatMap_congr fun f _ ↦ ?_
  rw [hfrom]
  cases importSource? f.2 with
  | none => rfl
  | some source => exact (List.append_nil _).symm

/-- An address at which an outline finds an import statement: it has a source, and no import or
function is around it. -/
def IsImportAt (t : Tree) (a : List Nat) (n source : Tree) : Prop :=
  t.at? a = some n ∧ n.kind = .importStatement ∧ n.child? .source = some source ∧
    ∀ b e, b <+: a → b ≠ a → t.at? b = some e →
      e.kind ∉ [.importStatement, .functionDeclaration, .generatorDeclaration]

theorem mem_sites_importSource? {a : List Nat} {source : Tree} :
    (a, n, source) ∈ (t.sites fun _ ↦ importSource?) ↔ IsImportAt t a n source := by
  have hstops (k : Kind) : isDeclaring k = false
      ↔ k ∉ [.importStatement, .functionDeclaration, .generatorDeclaration] := by
    cases k <;> decide
  have hopen : t.IsOpen isDeclaring a ↔ ∀ b e, b <+: a → b ≠ a → t.at? b = some e →
      e.kind ∉ [.importStatement, .functionDeclaration, .generatorDeclaration] := by
    simp only [Tree.IsOpen, hstops]
    exact ⟨fun h b e hb hne he ↦ h b hb hne e he, fun h b hb hne e he ↦ h b e hb hne he⟩
  rw [mem_sites, hopen, IsImportAt, importSource?, Option.ite_none_right_eq_some]
  tauto

/-- **There is no outline** exactly if one of the sources of imports can name nothing. -/
theorem ofTree_eq_none_iff : ofTree resolve path s t = none
    ↔ ∃ a n source, IsImportAt t a n source ∧ resolve (unquoted (textOf s source)) = none := by
  have hnone : ofTree resolve path s t = none
      ↔ (t.declarations .inner).mapM (fun f ↦ importsOf resolve (textOf s) f.2) = none := by
    rw [ofTree]
    cases (t.declarations .inner).mapM fun f ↦ importsOf resolve (textOf s) f.2 with
    | none => exact iff_of_true rfl rfl
    | some _ => exact iff_of_false (Option.some_ne_none _) (Option.some_ne_none _)
  have himports (n : Tree) : importsOf resolve (textOf s) n = none
      ↔ ∃ source, importSource? n = some source ∧ resolve (unquoted (textOf s source)) = none := by
    rw [importsOf_eq]
    cases importSource? n with
    | none => simp
    | some source => simp
  have hdeclared : (∃ f ∈ t.declarations .inner, importsOf resolve (textOf s) f.2 = none)
      ↔ ∃ p ∈ (t.declarations .inner).filterMap (fun f ↦
          (importSource? f.2).map fun source ↦ (f.2, source)),
        resolve (unquoted (textOf s p.2)) = none := by
    simp only [himports, List.mem_filterMap, Option.map_eq_some_iff]
    constructor
    · rintro ⟨f, hf, source, hsource, hlost⟩
      exact ⟨(f.2, source), ⟨f, hf, source, hsource, rfl⟩, hlost⟩
    · rintro ⟨-, ⟨f, hf, source, hsource, rfl⟩, hlost⟩
      exact ⟨f, hf, source, hsource, hlost⟩
  rw [hnone, mapM_eq_none_iff, hdeclared, filterMap_importSource?]
  constructor
  · rintro ⟨p, hp, hlost⟩
    obtain ⟨⟨a, n, source⟩, hsite, rfl⟩ := List.mem_map.mp hp
    exact ⟨a, n, source, mem_sites_importSource?.mp hsite, hlost⟩
  · rintro ⟨a, n, source, himport, hlost⟩
    exact ⟨_, List.mem_map_of_mem (mem_sites_importSource?.mpr himport), hlost⟩

/-- The outline of a source is that of its tree. -/
theorem exists_ofTree_of_outline {rules : SourceRules} {locate : String → String}
    {bytes : List UInt8} (h : rules.outline locate path bytes = .ok o) :
    ∃ dialect, dialect? rules.toExtensions path = some dialect ∧
      ofTree (Path.resolveWith (Path.keyed locate) rules.toExtensions path) path
        ⟨(Text.decodeReplacing bytes).toArray, dialect⟩
        (Source.tree ⟨(Text.decodeReplacing bytes).toArray, dialect⟩) = some o := by
  rw [SourceRules.outline] at h
  split at h
  · exact nomatch h
  · rename_i dialect hdialect
    dsimp only at h
    split at h
    · exact nomatch h
    · split at h
      · exact nomatch h
      · split at h
        · rename_i outline htree
          exact ⟨dialect, hdialect, htree.trans (congrArg some (Except.ok.inj h))⟩
        · exact nomatch h

/-- What an outline records of a tree. The functions and imports that are recorded have addresses, which
ascend: that is text order, and none is recorded twice. -/
structure Records (resolve : String → Option String) (path : String) (s : Source) (t : Tree)
    (o : Outline) : Prop where
  /-- The functions are those with a name that are children of the root, or of an export that is one. -/
  functions : ∃ found : List (List Nat × Tree × Tree),
    found.Pairwise (fun x y ↦ x.1 < y.1) ∧
    (∀ a n name, (a, n, name) ∈ found ↔ t.at? a = some n ∧
      (n.kind = .functionDeclaration ∨ n.kind = .generatorDeclaration) ∧
      n.child? .name = some name ∧
      ((∃ i, a = [i]) ∨ ∃ i j e, a = [i, j] ∧ t.at? [i] = some e ∧ e.kind = .exportStatement)) ∧
    o.functions = found.map fun (_, n, name) ↦ record s path n name
  /-- The imports are the first occurrences of those from all import statements with a source that are
  not inside an import or a function, and each source names something. -/
  imports : ∃ found : List (List Nat × Tree × Tree),
    found.Pairwise (fun x y ↦ x.1 < y.1) ∧
    (∀ a n source, (a, n, source) ∈ found ↔ IsImportAt t a n source) ∧
    (∀ a n source, (a, n, source) ∈ found → ∃ module,
      resolve (unquoted (textOf s source)) = some module) ∧
    o.imports = (found.flatMap fun (_, n, source) ↦
      importsFrom resolve (textOf s) n source).eraseDups

theorem records_ofTree (h : t.IsProgram) (ho : ofTree resolve path s t = some o) :
    Records resolve path s t o where
  functions := by
    refine ⟨_, pairwise_sites, fun a n name ↦ ?_, functions_ofTree ho⟩
    rw [mem_sites]
    have hpart : functionName? (placeAt .inner a t) n = some name
        ↔ (n.kind = .functionDeclaration ∨ n.kind = .generatorDeclaration) ∧
          placeAt .inner a t ≠ .inner ∧ n.child? .name = some name := by
      simp [functionName?, isTopFunction, and_assoc]
    constructor
    · rintro ⟨hn, -, hname⟩
      obtain ⟨hkind, hplace, hname⟩ := hpart.mp hname
      exact ⟨hn, hkind, hname, (placeAt_ne_inner_iff h hn).mp hplace⟩
    · rintro ⟨hn, hkind, hname, houter⟩
      exact ⟨hn, IsOuter.isOpen houter h,
        hpart.mpr ⟨hkind, (placeAt_ne_inner_iff h hn).mpr houter, hname⟩⟩
  imports := by
    refine ⟨_, pairwise_sites, fun a n source ↦ mem_sites_importSource?, fun a n source hsite ↦ ?_,
      imports_ofTree ho⟩
    rw [← Option.ne_none_iff_exists']
    intro hlost
    have hnone : ofTree resolve path s t = none :=
      ofTree_eq_none_iff.mpr ⟨a, n, source, mem_sites_importSource?.mp hsite, hlost⟩
    exact Option.some_ne_none o (ho.symm.trans hnone)

/-- **An outline records** the declarations of its tree, whatever tree that is, and there is one
unless an import is from what can name nothing. -/
theorem records_outline :
    (∀ (resolve : String → Option String) (path : String) (s : Source) (t : Tree) (o : Outline),
      t.IsProgram → ofTree resolve path s t = some o → Records resolve path s t o) ∧
    (∀ (resolve : String → Option String) (path : String) (s : Source) (t : Tree),
      ofTree resolve path s t = none
        ↔ ∃ a n source, IsImportAt t a n source ∧ resolve (unquoted (textOf s source)) = none) ∧
    ∀ (rules : SourceRules) (locate : String → String) (path : String) (bytes : List UInt8)
      (o : Outline), rules.outline locate path bytes = .ok o →
      ∃ dialect s, dialect? rules.toExtensions path = some dialect ∧
        s = ⟨(Text.decodeReplacing bytes).toArray, dialect⟩ ∧
        ofTree (Path.resolveWith (Path.keyed locate) rules.toExtensions path) path s s.tree
          = some o := by
  refine ⟨fun _ _ _ _ _ ↦ records_ofTree, fun _ _ _ _ ↦ ofTree_eq_none_iff, ?_⟩
  intro rules locate path bytes o ho
  obtain ⟨dialect, hdialect, htree⟩ := exists_ofTree_of_outline ho
  exact ⟨dialect, _, hdialect, rfl, htree⟩

/-- A node without children. -/
def leaf (kind : Kind) (role : Option Role) (start stop : Nat) : Tree :=
  .node kind role ⟨start, stop⟩ []

/-- A function with a name of one letter. -/
def namedFunction (start : Nat) (body : List Tree) : Tree :=
  .node .functionDeclaration none ⟨start, start + 1⟩
    [leaf .identifier (some .name) start (start + 1), .node .block (some .body) ⟨start, start + 1⟩ body]

/-- An import of `d` and of `m` from `'./x'`. -/
def importOfTwo : Tree :=
  .node .importStatement none ⟨0, 9⟩
    [.node .importClause none ⟨0, 3⟩ [leaf .identifier none 0 1,
      .node .namedImports none ⟨2, 3⟩ [.node .importSpecifier none ⟨2, 3⟩
        [leaf .identifier (some .name) 2 3, leaf .identifier none 14 15]]],
    leaf .string (some .source) 4 9]

/-- A program with an exported function, one inside it and one inside a block, and with an import that
is repeated there. -/
def nested : Tree :=
  .node .program none ⟨0, 15⟩
    [importOfTwo, .node .exportStatement none ⟨10, 13⟩ [namedFunction 10 [namedFunction 12 []]],
      .node .block none ⟨14, 15⟩ [namedFunction 14 [importOfTwo], importOfTwo]]

theorem records_nested : nested.IsProgram ∧
    ∃ o, ofTree some "/p/a.ts" ⟨"d m './x' f g h".toList.toArray, .typescript⟩ nested = some o ∧
      Records some "/p/a.ts" ⟨"d m './x' f g h".toList.toArray, .typescript⟩ nested o ∧
      o.functions.map (·.name) = ["f"] ∧ o.imports = [⟨"d", "./x"⟩, ⟨"m", "./x"⟩] := by
  have hprogram : nested.IsProgram := by decide +kernel
  have hread : (ofTree some "/p/a.ts" ⟨"d m './x' f g h".toList.toArray, .typescript⟩ nested).map
      (fun o ↦ (o.functions.map (·.name), o.imports))
        = some (["f"], [⟨"d", "./x"⟩, ⟨"m", "./x"⟩]) := by decide +kernel
  obtain ⟨o, ho, heq⟩ := Option.map_eq_some_iff.mp hread
  obtain ⟨hfunctions, himports⟩ := Prod.mk.inj heq
  exact ⟨hprogram, o, ho, records_outline.1 some "/p/a.ts" _ nested o hprogram ho, hfunctions,
    himports⟩

end Outline

end CodeAtlas.Syntax
