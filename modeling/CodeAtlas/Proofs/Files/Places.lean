import CodeAtlas.Proofs.Files.Writes

/-!
# Places and their paths

A place is written as a path, and the path is read back by following its names from the root. The
place comes back if its names can stand on a path and no link stands on the way (`placeOf_pathOf`).
The first is a matter of the tree, since what is found at a place has been given those names; the
second is settled by finding anything below.
-/

namespace CodeAtlas

/-! ## Names -/

/-- Can the text name an entry of a directory? -/
structure IsName (name : String) : Prop where
  ne_empty : name ≠ ""
  ne_here : name ≠ "."
  ne_above : name ≠ ".."
  slashless : '/' ∉ name.toList

instance (name : String) : Decidable (IsName name) :=
  decidable_of_iff (name ≠ "" ∧ name ≠ "." ∧ name ≠ ".." ∧ '/' ∉ name.toList)
    ⟨fun ⟨h₁, h₂, h₃, h₄⟩ ↦ ⟨h₁, h₂, h₃, h₄⟩, fun ⟨h₁, h₂, h₃, h₄⟩ ↦ ⟨h₁, h₂, h₃, h₄⟩⟩

theorem IsName.toList_ne_nil {name : String} (h : IsName name) : name.toList ≠ [] :=
  fun hnil ↦ h.ne_empty (String.toList_eq_nil_iff.mp hnil)

theorem IsName.not_isIdle {name : String} (h : IsName name) : Path.isIdle name.toList = false := by
  have hhere : name.toList ≠ ['.'] := fun heq ↦ h.ne_here (String.toList_injective heq)
  simp [Path.isIdle, h.ne_empty, hhere]

/-! ## Paths of names -/

namespace Path

theorem pieces_append {name rest piece : List Char} {ps : List (List Char)} (hname : '/' ∉ name)
    (hrest : pieces rest = piece :: ps) : pieces (name ++ rest) = (name ++ piece) :: ps := by
  induction name with
  | nil => exact hrest
  | cons c name ih =>
    rw [List.mem_cons, not_or] at hname
    have hc : ¬ (c == '/') = true := fun h ↦ hname.1 (beq_iff_eq.mp h).symm
    rw [List.cons_append, pieces, if_neg hc, ih hname.2, List.cons_append]

/-- Names that are all preceded by a slash are the pieces after the first one, which is empty. -/
theorem pieces_flatMap {names : List (List Char)} (h : ∀ name ∈ names, '/' ∉ name) :
    pieces (names.flatMap ('/' :: ·)) = [] :: names := by
  induction names with
  | nil => rfl
  | cons name names ih =>
    rw [List.forall_mem_cons] at h
    rw [List.flatMap_cons, List.cons_append, pieces, if_pos (beq_self_eq_true _),
      pieces_append h.1 (ih h.2), List.append_nil]

end Path

namespace FileTree

/-- A path consists of its names with slashes between them, behind one more slash. -/
theorem pathOf_eq (place : List String) : pathOf place = "/" ++ String.intercalate "/" place := by
  induction place with
  | nil => rfl
  | cons name place ih =>
    cases place with
    | nil => simp [pathOf]
    | cons name' place =>
      rw [String.intercalate_cons_cons, String.append_assoc, ← ih]
      simp [pathOf, String.join_cons, String.append_assoc]

theorem toList_pathOf {place : List String} (h : place ≠ []) :
    (pathOf place).toList = (place.map String.toList).flatMap ('/' :: ·) := by
  rw [pathOf, if_neg (by simpa using h), String.toList_join, List.flatMap_map, List.flatMap_map]
  simp

/-- The names can be read off a path. -/
theorem namesOn_pathOf {place : List String} (h : ∀ name ∈ place, IsName name) :
    namesOn (pathOf place) = place := by
  rcases eq_or_ne place [] with rfl | hne
  · rfl
  · have hslash : ∀ name ∈ place.map String.toList, '/' ∉ name := by
      intro cs hcs
      obtain ⟨name, hname, rfl⟩ := List.mem_map.mp hcs
      exact (h name hname).slashless
    have hidle : ∀ name ∈ place.map String.toList, (!Path.isIdle name) = true := by
      intro cs hcs
      obtain ⟨name, hname, rfl⟩ := List.mem_map.mp hcs
      rw [(h name hname).not_isIdle, Bool.not_false]
    rw [namesOn, toList_pathOf hne, Path.pieces_flatMap hslash, List.filter_cons,
      if_neg (by decide), List.filter_eq_self.mpr hidle, List.map_map]
    exact List.map_id'' (fun _ ↦ String.ofList_toList) place

theorem pathOf_inj {place place' : List String} (h : ∀ name ∈ place, IsName name)
    (h' : ∀ name ∈ place', IsName name) : pathOf place = pathOf place' ↔ place = place' := by
  refine ⟨fun heq ↦ ?_, congrArg pathOf⟩
  rw [← namesOn_pathOf h, heq, namesOn_pathOf h']

/-- Joined names start with the first of them. -/
theorem exists_intercalate_cons (name : String) (names : List String) :
    ∃ rest, (String.intercalate "/" (name :: names)).toList = name.toList ++ rest := by
  cases names with
  | nil => exact ⟨[], by simp⟩
  | cons name' names =>
    exact ⟨_, by rw [String.intercalate_cons_cons, String.append_assoc, String.toList_append]⟩

theorem intercalate_ne_empty {names : List String} (h : ∀ name ∈ names, IsName name)
    (hne : names ≠ []) : String.intercalate "/" names ≠ "" := by
  obtain ⟨name, names, rfl⟩ := List.exists_cons_of_ne_nil hne
  obtain ⟨rest, hrest⟩ := exists_intercalate_cons name names
  rw [List.forall_mem_cons] at h
  intro hempty
  rw [String.toList_eq_nil_iff.mpr hempty] at hrest
  exact h.1.toList_ne_nil (List.append_eq_nil_iff.mp hrest.symm).1

theorem head?_intercalate {names : List String} (h : ∀ name ∈ names, IsName name)
    (hne : names ≠ []) : (String.intercalate "/" names).toList.head? ≠ some '/' := by
  obtain ⟨name, names, rfl⟩ := List.exists_cons_of_ne_nil hne
  obtain ⟨rest, hrest⟩ := exists_intercalate_cons name names
  rw [List.forall_mem_cons] at h
  rw [hrest, List.head?_append_of_ne_nil _ h.1.toList_ne_nil]
  exact fun hslash ↦ h.1.slashless (List.mem_of_head? hslash)

/-- Only the path of the root ends in a slash. -/
theorem getLast?_pathOf {place : List String} (h : ∀ name ∈ place, IsName name) (hne : place ≠ []) :
    (pathOf place).toList.getLast? ≠ some '/' := by
  obtain ⟨above, name, rfl⟩ := (List.eq_nil_or_concat' place).resolve_left hne
  have hname : IsName name := h name (by simp)
  rw [toList_pathOf hne, List.map_append, List.flatMap_append, List.map_singleton,
    List.flatMap_singleton, List.getLast?_append_of_ne_nil _ (List.cons_ne_nil _ _),
    List.getLast?_cons_of_ne_nil hname.toList_ne_nil]
  exact fun hslash ↦ hname.slashless (List.mem_of_getLast? hslash)

/-- Names below a place lead on from there. -/
theorem join_pathOf {place names : List String} (hplace : ∀ name ∈ place, IsName name)
    (hnames : ∀ name ∈ names, IsName name) (hne : names ≠ []) :
    Path.join (pathOf place) (String.intercalate "/" names) = pathOf (place ++ names) := by
  have hhead : ((String.intercalate "/" names).toList.head? == some '/') = false :=
    beq_eq_false_iff_ne.mpr (head?_intercalate hnames hne)
  rw [Path.join, Path.joinList, hhead, if_neg Bool.false_ne_true]
  rcases eq_or_ne place [] with rfl | hplace'
  · rw [List.nil_append, pathOf_eq names, if_pos (by decide)]
    apply String.toList_injective
    simp [pathOf]
  · have hlast : ((pathOf place).toList.getLast? == some '/') = false :=
      beq_eq_false_iff_ne.mpr (getLast?_pathOf hplace hplace')
    have hpath : (pathOf place).toList.isEmpty = false := by
      rw [pathOf_eq, String.toList_append]
      rfl
    rw [hlast, hpath, Bool.or_false, if_neg Bool.false_ne_true, pathOf_eq (place ++ names),
      String.intercalate_append_of_ne_nil hplace' hne, pathOf_eq place]
    apply String.toList_injective
    simp

/-! ## What is at a place -/

theorem at?_append (place names : List String) (t : FileTree) :
    at? (place ++ names) t = (at? place t).bind (at? names) := by
  induction place generalizing t with
  | nil => rfl
  | cons name place ih =>
    cases t with
    | directory entries =>
      rw [List.cons_append, at?, at?]
      cases Props.get? name entries with
      | none => rfl
      | some t' => exact ih t'
    | file _ | special _ | link _ => rfl

/-- What is below a place is seen from there. -/
theorem at?_below {root t : FileTree} {place : List String} (h : root.at? place = some t)
    (names : List String) : root.at? (place ++ names) = t.at? names := by
  rw [at?_append, h, Option.bind_some]

/-- Below what is no directory there is nothing. -/
theorem directory_of_at?_cons {name : String} {names : List String} {t u : FileTree}
    (h : at? (name :: names) t = some u) :
    ∃ entries t', t = directory entries ∧ Props.get? name entries = some t' ∧
      at? names t' = some u := by
  cases t with
  | directory entries =>
    obtain ⟨t', ht', hu⟩ := Option.bind_eq_some_iff.mp h
    exact ⟨entries, t', rfl, ht', hu⟩
  | file _ | special _ | link _ => exact nomatch h

/-- What is below a tree without links is no link. -/
theorem linkCount_at? {place : List String} {t u : FileTree} (ht : t.linkCount = 0)
    (h : at? place t = some u) : u.linkCount = 0 := by
  induction place generalizing t with
  | nil => exact Option.some.inj h ▸ ht
  | cons name place ih =>
    obtain ⟨entries, t', rfl, hget, hu⟩ := directory_of_at?_cons h
    exact ih (linkCount_eq_zero_of_get? ht hget) hu

/-! ## Proper trees -/

/-- Every directory gives its entries names, and each a name of its own. -/
inductive Proper : FileTree → Prop
  | file (content : ByteArray) : Proper (file content)
  | special (why : FileFault) : Proper (special why)
  | link (target : String) : Proper (link target)
  | directory {entries : List (String × FileTree)} (distinct : (entries.map Prod.fst).Nodup)
      (named : ∀ e ∈ entries, IsName e.1) (below : ∀ e ∈ entries, Proper e.2) :
      Proper (directory entries)

theorem proper_directory {entries : List (String × FileTree)} : (directory entries).Proper
    ↔ (entries.map Prod.fst).Nodup ∧ (∀ e ∈ entries, IsName e.1) ∧ ∀ e ∈ entries, e.2.Proper := by
  constructor
  · intro h
    cases h with
    | directory hdistinct hnamed hbelow => exact ⟨hdistinct, hnamed, hbelow⟩
  · rintro ⟨hdistinct, hnamed, hbelow⟩
    exact .directory hdistinct hnamed hbelow

/-- What is found in a proper tree is proper, and has proper names. -/
theorem Proper.at? {place : List String} {t u : FileTree} (ht : t.Proper)
    (h : t.at? place = some u) : u.Proper ∧ ∀ name ∈ place, IsName name := by
  induction place generalizing t with
  | nil => exact ⟨Option.some.inj h ▸ ht, fun _ hname ↦ absurd hname List.not_mem_nil⟩
  | cons name place ih =>
    obtain ⟨entries, t', rfl, hget, hu⟩ := directory_of_at?_cons h
    have hmem := Props.mem_of_get? hget
    cases ht with
    | directory _ hnamed hbelow =>
      obtain ⟨hproper, hnames⟩ := ih (hbelow _ hmem) hu
      exact ⟨hproper, List.forall_mem_cons.mpr ⟨hnamed _ hmem, hnames⟩⟩

/-! ## Places of paths -/

/-- Where no link is met, the names are all there is to a place. -/
theorem follow_of_linkless {root : FileTree} {fuel : Nat} {started : List (List String)}
    {place names : List String} (hnames : ∀ name ∈ names, IsName name)
    (hlinks : ∀ front, front <+: names → front ≠ [] →
      ∀ target, root.at? (place.reverse ++ front) ≠ some (.link target)) :
    root.follow fuel started place names = names.reverse ++ place := by
  induction names generalizing place with
  | nil => rw [follow, List.reverse_nil, List.nil_append]
  | cons name names ih =>
    rw [List.forall_mem_cons] at hnames
    have hstep : root.follow fuel started place (name :: names)
        = root.follow fuel started (name :: place) names := by
      have hname : ¬ (name == "..") = true := fun h ↦ hnames.1.ne_above (beq_iff_eq.mp h)
      rw [follow, if_neg hname]
      dsimp only
      split
      · rename_i target _ hlink
        refine absurd hlink ?_
        rw [List.reverse_cons]
        exact hlinks [name] (List.prefix_append [name] names) (List.cons_ne_nil _ _) target
      · rfl
    rw [hstep, ih hnames.2, List.reverse_cons, List.append_assoc, List.singleton_append]
    intro front hfront _ target
    have hlink := hlinks (name :: front) (List.cons_prefix_cons.mpr ⟨rfl, hfront⟩)
      (List.cons_ne_nil _ _) target
    rwa [List.reverse_cons, List.append_assoc, List.singleton_append]

/-- **The path of a place** leads to it, unless there is a link. -/
theorem placeOf_pathOf {root u : FileTree} {place : List String} (hroot : root.Proper)
    (h : root.at? place = some u) (hu : ∀ target, u ≠ .link target) :
    root.placeOf (pathOf place) = place := by
  have hnames := (hroot.at? h).2
  rw [placeOf, namesOn_pathOf hnames, follow_of_linkless hnames, List.append_nil,
    List.reverse_reverse]
  intro front hfront _ target hlink
  obtain ⟨rest, rfl⟩ := hfront
  rw [List.reverse_nil, List.nil_append] at hlink
  rw [at?_append, hlink, Option.bind_some] at h
  cases rest with
  | nil => exact hu target (Option.some.inj h).symm
  | cons name rest =>
    obtain ⟨_, _, hlinked, -⟩ := directory_of_at?_cons h
    exact FileTree.noConfusion hlinked

theorem realPath_pathOf {root u : FileTree} {place : List String} (hroot : root.Proper)
    (h : root.at? place = some u) (hu : ∀ target, u ≠ .link target) :
    root.realPath (pathOf place) = pathOf place := by
  rw [realPath, placeOf_pathOf hroot h hu]

end FileTree

end CodeAtlas
