import CodeAtlas.Proofs.Files.Places

/-!
# Segments of a path

Names are joined to a text with slashes between them, and the names are the pieces of that text
(`pieces_intercalate`). A path below a directory is the path of the directory with such names behind it;
its extension is that of the last name (`suffix_of_below?`).
-/

namespace CodeAtlas.Path

variable {root path : String} {names : List String} {w : List Char}

theorem pieces_ne_nil (p : List Char) : pieces p ≠ [] := by
  cases p with
  | nil => exact List.cons_ne_nil _ _
  | cons c p =>
    rw [pieces]
    split
    · exact List.cons_ne_nil _ _
    · split <;> exact List.cons_ne_nil _ _

theorem pieces_of_slashless (h : '/' ∉ w) : pieces w = [w] := by
  have hpieces : pieces (w ++ []) = [w ++ []] := pieces_append h rfl
  rwa [List.append_nil] at hpieces

theorem pieces_append_slash (a b : List Char) : pieces (a ++ '/' :: b) = pieces a ++ pieces b := by
  induction a with
  | nil => rfl
  | cons c a ih =>
    obtain ⟨p, ps, hp⟩ := List.exists_cons_of_ne_nil (pieces_ne_nil a)
    rw [List.cons_append, pieces, pieces, ih, hp]
    split <;> rfl

theorem slashless_of_mem_pieces {piece p : List Char} (h : piece ∈ pieces p) : '/' ∉ piece := by
  induction p generalizing piece with
  | nil => simp_all [pieces]
  | cons c p ih =>
    obtain ⟨q, qs, hq⟩ := List.exists_cons_of_ne_nil (pieces_ne_nil p)
    rw [pieces, hq] at h
    rw [hq] at ih
    split at h
    · rcases List.mem_cons.mp h with rfl | h
      · exact List.not_mem_nil
      · exact ih h
    · rename_i hc
      rcases List.mem_cons.mp h with rfl | h
      · rw [List.mem_cons, not_or]
        exact ⟨fun heq ↦ hc (beq_iff_eq.mpr heq.symm), ih List.mem_cons_self⟩
      · exact ih (List.mem_cons_of_mem _ h)

/-! ## Joined names -/

/-- A text around a name of joined names: the names before it end in a slash each, and the names
behind it start with one. -/
theorem toList_intercalate (above : List String) (name : String) (below : List String) :
    (String.intercalate "/" (above ++ name :: below)).toList
      = above.flatMap (·.toList ++ ['/']) ++ (name.toList ++ below.flatMap ('/' :: ·.toList)) := by
  induction above with
  | nil =>
    rw [List.nil_append, List.flatMap_nil, List.nil_append]
    induction below generalizing name with
    | nil => simp
    | cons name' below ih =>
      rw [String.intercalate_cons_cons, String.toList_append, String.toList_append, ih]
      simp
  | cons name' above ih =>
    obtain ⟨first, rest, hrest⟩ : ∃ first rest, above ++ name :: below = first :: rest :=
      List.exists_cons_of_ne_nil (by simp)
    rw [List.cons_append, hrest, String.intercalate_cons_cons, ← hrest, String.toList_append,
      String.toList_append, ih]
    simp

theorem pieces_intercalate (h : ∀ name ∈ names, '/' ∉ name.toList) (hne : names ≠ []) :
    pieces (String.intercalate "/" names).toList = names.map String.toList := by
  obtain ⟨name, below, rfl⟩ := List.exists_cons_of_ne_nil hne
  rw [List.forall_mem_cons] at h
  have hbelow : ∀ cs ∈ below.map String.toList, '/' ∉ cs := List.forall_mem_map.mpr h.2
  have htext := toList_intercalate [] name below
  rw [List.nil_append, List.flatMap_nil, List.nil_append] at htext
  rw [htext, ← List.flatMap_map, pieces_append h.1 (pieces_flatMap hbelow), List.append_nil,
    List.map_cons]

/-- Joined names that have been gone through so far are nothing or end in a slash. -/
theorem flatMap_slash_eq (above : List String) :
    above.flatMap (·.toList ++ ['/']) = [] ∨
      ∃ a, above.flatMap (·.toList ++ ['/']) = a ++ ['/'] := by
  rcases List.eq_nil_or_concat' above with rfl | ⟨above, name, rfl⟩
  · exact Or.inl rfl
  · exact Or.inr ⟨above.flatMap (·.toList ++ ['/']) ++ name.toList, by simp⟩

/-- An ending without a slash does not reach beyond the last name. -/
theorem suffix_intercalate_iff (hw : '/' ∉ w) {above : List String} {name : String} :
    w <:+ (String.intercalate "/" (above ++ [name])).toList ↔ w <:+ name.toList := by
  rw [toList_intercalate above name [], List.flatMap_nil, List.append_nil]
  constructor
  · intro hsuffix
    rcases List.suffix_or_suffix_of_suffix hsuffix (List.suffix_append _ _) with h | ⟨y, rfl⟩
    · exact h
    · obtain ⟨pre, hpre⟩ := hsuffix
      rw [← List.append_assoc, List.append_left_inj] at hpre
      rcases List.eq_nil_or_concat' y with rfl | ⟨y, c, rfl⟩
      · exact List.suffix_rfl
      · rcases flatMap_slash_eq above with hnil | ⟨a, ha⟩
        · rw [hnil] at hpre
          simp at hpre
        · rw [ha, ← List.append_assoc] at hpre
          obtain rfl : c = '/' := List.singleton_inj.mp (List.append_inj_right' hpre rfl)
          exact absurd (by simp) hw
  · exact fun hsuffix ↦ hsuffix.trans (List.suffix_append _ _)

/-! ## Paths below a directory -/

theorem namesOn_of_below? (h : below? root path = some names) :
    FileTree.namesOn path = FileTree.namesOn root ++ names := by
  rw [below?] at h
  dsimp only at h
  obtain ⟨hpre, hnames⟩ := Option.ite_none_right_eq_some.mp h
  obtain ⟨rest, hrest⟩ := List.isPrefixOf_iff_prefix.mp (Bool.and_eq_true_iff.mp hpre).2
  rw [← hrest, List.drop_left] at hnames
  rw [FileTree.namesOn, FileTree.namesOn, ← hrest, List.map_append, Option.some.inj hnames]

theorem slashless_of_below? (h : below? root path = some names) :
    ∀ name ∈ names, '/' ∉ name.toList := by
  intro name hname
  have hmem : name ∈ FileTree.namesOn path := by
    rw [namesOn_of_below? h]
    exact List.mem_append_right _ hname
  obtain ⟨piece, hpiece, rfl⟩ := List.mem_map.mp hmem
  rw [String.toList_ofList]
  exact slashless_of_mem_pieces (List.mem_of_mem_filter hpiece)

/-- The extension of a path is that of the last name on it. -/
theorem suffix_of_namesOn_append {above : List String} {name : String}
    (h : FileTree.namesOn path = above ++ [name]) :
    suffix path = String.ofList (suffixList name.toList) := by
  have hlast : (FileTree.namesOn path).getLast? = some name := by rw [h, List.getLast?_concat]
  rw [FileTree.namesOn, List.getLast?_map, Option.map_eq_some_iff] at hlast
  obtain ⟨last, hlast, rfl⟩ := hlast
  rw [suffix, lastName, List.getLastD_eq_getLast?, hlast, String.toList_ofList]
  rfl

theorem suffix_of_below? (h : below? root path = some names) (hne : names ≠ []) :
    suffix path = String.ofList (suffixList (names.getLast hne).toList) := by
  have hnames : FileTree.namesOn path
      = (FileTree.namesOn root ++ names.dropLast) ++ [names.getLast hne] := by
    rw [namesOn_of_below? h, List.append_assoc, List.dropLast_append_getLast]
  exact suffix_of_namesOn_append hnames

theorem filter_pieces_pathOf {place : List String} (h : ∀ name ∈ place, IsName name) :
    (pieces (FileTree.pathOf place).toList).filter (fun s ↦ !isIdle s)
      = place.map String.toList := by
  have hnames := congrArg (List.map String.toList) (FileTree.namesOn_pathOf h)
  rw [FileTree.namesOn, List.map_map] at hnames
  rw [← hnames]
  exact (List.map_id'' (fun _ ↦ String.toList_ofList) _).symm

theorem anchor_of_ne {c : Char} (hc : c ≠ '/') {rest : List Char} :
    anchor ('/' :: c :: rest) = ['/'] := by
  rw [anchor]
  all_goals
    intro _ heq
    exact hc (List.cons.inj heq).1

theorem anchor_pathOf {place : List String} (h : ∀ name ∈ place, IsName name) :
    anchor (FileTree.pathOf place).toList = ['/'] := by
  rcases eq_or_ne place [] with rfl | hne
  · rfl
  · have hhead := FileTree.head?_intercalate h hne
    rw [FileTree.pathOf_eq, String.toList_append]
    cases hrest : (String.intercalate "/" place).toList with
    | nil => rfl
    | cons c rest =>
      rw [hrest, List.head?_cons, Ne, Option.some.injEq] at hhead
      exact anchor_of_ne hhead

theorem below?_pathOf {place : List String} (h : ∀ name ∈ place ++ names, IsName name) :
    below? (FileTree.pathOf place) (FileTree.pathOf (place ++ names)) = some names := by
  have hplace : ∀ name ∈ place, IsName name := fun name hname ↦ h name (List.mem_append_left _ hname)
  have hprefix : (place.map String.toList).isPrefixOf
      (place.map String.toList ++ names.map String.toList) = true :=
    List.isPrefixOf_iff_prefix.mpr (List.prefix_append _ _)
  simp only [below?, anchor_pathOf h, anchor_pathOf hplace, filter_pieces_pathOf h,
    filter_pieces_pathOf hplace, List.map_append, hprefix, beq_self_eq_true, Bool.and_self,
    if_true, List.drop_left, List.map_map]
  exact congrArg some (List.map_id'' (fun _ ↦ String.ofList_toList) names)

/-- What follows the last point of a name is its extension, unless nothing precedes the point. -/
theorem suffixList_of_suffix {ending name : List Char} (hpoint : '.' ∉ ending)
    (h : '.' :: ending <:+ name) : suffixList name = [] ∨ suffixList name = '.' :: ending := by
  obtain ⟨pre, rfl⟩ := h
  have htake : (pre ++ '.' :: ending).reverse.takeWhile (· != '.') = ending.reverse := by
    rw [List.reverse_append, List.reverse_cons, List.append_assoc, List.takeWhile_append_of_pos]
    · simp
    · intro c hc
      rw [List.mem_reverse] at hc
      exact bne_iff_ne.mpr fun heq : c = '.' ↦ hpoint (heq ▸ hc)
  rw [suffixList, htake]
  split
  · exact Or.inl rfl
  · rw [List.reverse_reverse]
    exact Or.inr rfl

end CodeAtlas.Path
