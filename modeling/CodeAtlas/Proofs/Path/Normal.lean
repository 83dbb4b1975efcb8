import CodeAtlas.Proofs.Files.Segments
import Mathlib.Data.List.TakeWhile

/-!
# Normal forms

A normal form is the path of a place: of the names that are left when every double point has taken
back the name before it (`normal_eq_pathOf`). These are names that can stand on a path, and
following them takes nothing back, so a normal form is its own normal form (`normal_normal`). In a
tree without links there is nothing else that a path could lead through (`realPath_eq_normal`).

What a path leads to is settled by the names on it. A path that is seen from a directory has the
names of the directory first (`namesOn_join`), and the extension of a path is that of the last name
on it, which the path then leads to (`exists_isName_of_suffix`).
-/

namespace CodeAtlas

/-! ## Names and places -/

namespace FileTree

variable {names place above : List String} {name path : String} {c : Char}

theorem mem_namesOn (h : name ∈ namesOn path) : name.toList ∈ Path.pieces path.toList ∧
    Path.isIdle name.toList = false := by
  obtain ⟨piece, hpiece, rfl⟩ := List.mem_map.mp h
  rw [List.mem_filter, Bool.not_eq_true'] at hpiece
  rwa [String.toList_ofList]

/-- What leads somewhere is a name, or it leads back. -/
theorem isName_of_mem_namesOn (h : name ∈ namesOn path) : name ≠ ".." → IsName name := by
  intro habove
  obtain ⟨hpiece, hidle⟩ := mem_namesOn h
  rw [Path.isIdle, Bool.or_eq_false_iff] at hidle
  refine ⟨?_, ?_, habove, Path.slashless_of_mem_pieces hpiece⟩
  · rintro rfl
    exact absurd hidle.1 (by decide)
  · rintro rfl
    exact absurd hidle.2 (by decide)

theorem stepPlace_of_isName (h : IsName name) : stepPlace place name = name :: place :=
  if_neg fun habove ↦ h.ne_above (beq_iff_eq.mp habove)

theorem foldl_stepPlace_of_isName (h : ∀ name ∈ names, IsName name) :
    names.foldl stepPlace place = names.reverse ++ place := by
  induction names generalizing place with
  | nil => rfl
  | cons name names ih =>
    rw [List.forall_mem_cons] at h
    rw [List.foldl_cons, stepPlace_of_isName h.1, ih h.2, List.reverse_cons, List.append_assoc,
      List.singleton_append]

/-- Nothing stands in a place that was not there and is not gone through, and a double point never
does. -/
theorem mem_foldl_stepPlace (h : name ∈ names.foldl stepPlace place) :
    name ∈ place ∨ name ∈ names ∧ name ≠ ".." := by
  induction names generalizing place with
  | nil => exact Or.inl h
  | cons next names ih =>
    rw [List.foldl_cons] at h
    rcases ih h with hplace | ⟨hnames, hne⟩
    · rw [stepPlace] at hplace
      split at hplace
      · exact Or.inl (List.mem_of_mem_drop hplace)
      · rename_i hnext
        rcases List.mem_cons.mp hplace with rfl | hplace
        · exact Or.inr ⟨List.mem_cons_self, fun habove ↦ hnext (beq_iff_eq.mpr habove)⟩
        · exact Or.inl hplace
    · exact Or.inr ⟨List.mem_cons_of_mem _ hnames, hne⟩

theorem mem_plainPlace (h : name ∈ plainPlace path) : name ∈ namesOn path ∧ name ≠ ".." :=
  (mem_foldl_stepPlace (List.mem_reverse.mp h)).resolve_left List.not_mem_nil

/-- **A place consists of names.** -/
theorem isName_of_mem_plainPlace (h : name ∈ plainPlace path) : IsName name :=
  isName_of_mem_namesOn (mem_plainPlace h).1 (mem_plainPlace h).2

theorem plainPlace_pathOf (h : ∀ name ∈ names, IsName name) :
    plainPlace (pathOf names) = names := by
  rw [plainPlace, namesOn_pathOf h, foldl_stepPlace_of_isName h, List.append_nil,
    List.reverse_reverse]

/-- The place that names lead to, from the root on. -/
theorem plainPlace_of_namesOn_append (h : namesOn path = above ++ [name]) (hname : IsName name) :
    plainPlace path = (above.foldl stepPlace []).reverse ++ [name] := by
  rw [plainPlace, h, List.foldl_append, List.foldl_cons, List.foldl_nil, stepPlace_of_isName hname,
    List.reverse_cons]

theorem mem_pathOf (h : c ∈ (pathOf place).toList) : c = '/' ∨ ∃ name ∈ place, c ∈ name.toList := by
  rcases eq_or_ne place [] with rfl | hne
  · exact Or.inl (List.mem_singleton.mp h)
  · rw [toList_pathOf hne, List.mem_flatMap] at h
    obtain ⟨cs, hcs, hc⟩ := h
    obtain ⟨name, hname, rfl⟩ := List.mem_map.mp hcs
    exact (List.mem_cons.mp hc).imp_right fun hc ↦ ⟨name, hname, hc⟩

end FileTree

/-! ## Normal forms -/

namespace Path

open FileTree

variable {p w last : List Char} {ps : List (List Char)} {path dir : String} {c : Char}

theorem mem_of_mem_pieces {piece : List Char} (hpiece : piece ∈ pieces p) (hc : c ∈ piece) :
    c ∈ p := by
  induction p generalizing piece with
  | nil => simp_all [pieces]
  | cons d p ih =>
    obtain ⟨q, qs, hq⟩ := List.exists_cons_of_ne_nil (pieces_ne_nil p)
    rw [pieces, hq] at hpiece
    rw [hq] at ih
    split at hpiece
    · rcases List.mem_cons.mp hpiece with rfl | hpiece
      · exact absurd hc List.not_mem_nil
      · exact List.mem_cons_of_mem _ (ih hpiece hc)
    · rcases List.mem_cons.mp hpiece with rfl | hpiece
      · rcases List.mem_cons.mp hc with rfl | hc
        · exact List.mem_cons_self
        · exact List.mem_cons_of_mem _ (ih List.mem_cons_self hc)
      · exact List.mem_cons_of_mem _ (ih (List.mem_cons_of_mem _ hpiece) hc)

/-- Following pieces is following the names among them. -/
theorem foldl_follow (ps place : List (List Char)) : (ps.foldl follow place).map String.ofList
    = ((ps.filter fun s ↦ !isIdle s).map String.ofList).foldl stepPlace
      (place.map String.ofList) := by
  induction ps generalizing place with
  | nil => rfl
  | cons s ps ih =>
    rw [List.foldl_cons, ih, follow, List.filter_cons]
    cases hidle : isIdle s with
    | true => rfl
    | false =>
      have habove : (s == ['.', '.']) = (String.ofList s == "..") := by
        rw [Bool.eq_iff_iff, beq_iff_eq, beq_iff_eq]
        exact ⟨fun h ↦ h ▸ rfl, fun h ↦ by rw [← String.toList_ofList (l := s), h]; rfl⟩
      rw [Bool.not_false, if_pos rfl, if_neg Bool.false_ne_true, List.map_cons, List.foldl_cons,
        stepPlace, habove]
      congr 1
      split
      · rw [List.map_drop]
      · rfl

/-- **A normal form** is the path of a place. -/
theorem normal_eq_pathOf (path : String) : normal path = pathOf (plainPlace path) := by
  have hplace : (place path.toList).map String.ofList = (plainPlace path).reverse := by
    rw [place, foldl_follow, plainPlace, List.reverse_reverse]
    rfl
  apply String.toList_injective
  rw [normal, String.toList_ofList, normalList, ofPlace]
  rcases eq_or_ne (place path.toList) [] with hnil | hne
  · rw [hnil, List.map_nil, eq_comm, List.reverse_eq_nil_iff] at hplace
    rw [hnil, hplace]
    rfl
  · have hne' : plainPlace path ≠ [] := by
      intro h
      rw [h, List.reverse_nil, List.map_eq_nil_iff] at hplace
      exact hne hplace
    have hnames : (plainPlace path).map String.toList = (place path.toList).reverse := by
      rw [← List.reverse_reverse (plainPlace path), ← hplace, ← List.map_reverse, List.map_map]
      exact List.map_id'' (fun _ ↦ String.toList_ofList) _
    rw [toList_pathOf hne', hnames, if_neg (by simpa using hne)]

/-- A normal form is one already. -/
theorem normal_normal (path : String) : normal (normal path) = normal path := by
  rw [normal_eq_pathOf path, normal_eq_pathOf,
    plainPlace_pathOf fun _ ↦ isName_of_mem_plainPlace]


theorem mem_normal (h : c ∈ (normal path).toList) : c = '/' ∨ c ∈ path.toList := by
  rw [normal_eq_pathOf] at h
  refine (mem_pathOf h).imp_right fun ⟨name, hname, hc⟩ ↦ ?_
  exact mem_of_mem_pieces (mem_namesOn (mem_plainPlace hname).1).1 hc

theorem normal?_eq_some_iff {key : String} :
    normal? path = some key ↔ '\x00' ∉ path.toList ∧ normal path = key := by
  rw [normal?, keyed]
  split
  · rename_i h
    exact iff_of_false (fun hsome ↦ nomatch hsome) fun hnot ↦ hnot.1 (List.contains_iff_mem.mp h)
  · rename_i h
    rw [List.contains_iff_mem] at h
    rw [Option.some.injEq, and_iff_right h]

/-- What is a normal form of some text is its own. -/
theorem normal?_of_normal? {key : String} (h : normal? path = some key) :
    normal? key = some key := by
  obtain ⟨hnull, rfl⟩ := normal?_eq_some_iff.mp h
  refine normal?_eq_some_iff.mpr ⟨fun hmem ↦ ?_, normal_normal path⟩
  exact (mem_normal hmem).elim (by decide) hnull

/-- In a tree without links, the real path of a path is its normal form. -/
theorem realPath_eq_normal {root : FileTree} (h : root.linkCount = 0) : root.realPath = normal := by
  funext path
  rw [realPath_of_linkless h, normal_eq_pathOf]

/-! ## What is added to a path -/

/-- A text is its last piece, or that piece behind a slash. -/
theorem eq_last_or_append_slash (p : List Char) :
    '/' ∉ p ∨ ∃ front last, p = front ++ '/' :: last ∧ '/' ∉ last := by
  by_cases hslash : '/' ∈ p
  · right
    obtain ⟨last, front, hp, hlast⟩ := List.eq_append_cons_of_mem (List.mem_reverse.mpr hslash)
    refine ⟨front.reverse, last.reverse, ?_, fun h ↦ hlast (List.mem_reverse.mp h)⟩
    rw [← List.reverse_reverse p, hp, List.reverse_append, List.reverse_cons, List.append_assoc,
      List.singleton_append]
  · exact Or.inl hslash

/-- What holds no slash is added to the last piece. -/
theorem pieces_append_of_slashless (hw : '/' ∉ w) (h : pieces p = ps ++ [last]) :
    pieces (p ++ w) = ps ++ [last ++ w] := by
  have hadded (piece : List Char) (hpiece : '/' ∉ piece) : pieces (piece ++ w) = [piece ++ w] := by
    apply pieces_of_slashless
    intro hmem
    exact (List.mem_append.mp hmem).elim hpiece hw
  rcases eq_last_or_append_slash p with hp | ⟨front, piece, rfl, hpiece⟩
  · rw [pieces_of_slashless hp, ← List.nil_append [p]] at h
    obtain ⟨rfl, hlast⟩ := List.append_inj' h rfl
    rw [hadded p hp, List.singleton_inj.mp hlast, List.nil_append]
  · rw [pieces_append_slash, pieces_of_slashless hpiece] at h
    obtain ⟨rfl, hlast⟩ := List.append_inj' h rfl
    rw [List.append_assoc, List.cons_append, pieces_append_slash, hadded piece hpiece,
      List.singleton_inj.mp hlast]

/-- The pieces of a path that is seen from a directory come last, and before them are those of the
directory, if empty ones do not count. -/
theorem exists_pieces_joinList {d : List Char} (h : p.head? ≠ some '/') :
    ∃ ps, pieces (joinList d p) = ps ++ pieces p ∧
      ps.filter (fun s ↦ !isIdle s) = (pieces d).filter fun s ↦ !isIdle s := by
  rw [joinList, if_neg (by simpa using h)]
  rcases List.eq_nil_or_concat' d with rfl | ⟨d, c, rfl⟩
  · exact ⟨[], rfl, rfl⟩
  · rw [List.getLast?_concat]
    by_cases hc : c = '/'
    · subst hc
      refine ⟨pieces d, ?_, ?_⟩
      · rw [if_pos (by simp), List.append_assoc, List.singleton_append, pieces_append_slash]
      · rw [pieces_append_slash, List.filter_append]
        exact (List.append_nil _).symm
    · refine ⟨pieces (d ++ [c]), ?_, rfl⟩
      rw [if_neg (by simpa using hc), pieces_append_slash]

/-- **A path seen from a directory** has the names of the directory first. -/
theorem namesOn_join (h : path.toList.head? ≠ some '/') :
    namesOn (join dir path) = namesOn dir ++ namesOn path := by
  obtain ⟨ps, hpieces, hps⟩ := exists_pieces_joinList (d := dir.toList) h
  rw [namesOn, join, String.toList_ofList, hpieces, List.filter_append, hps, List.map_append]
  rfl

theorem getLast?_pieces_join (h : path.toList.head? ≠ some '/') :
    (pieces (join dir path).toList).getLast? = (pieces path.toList).getLast? := by
  obtain ⟨ps, hpieces, -⟩ := exists_pieces_joinList (d := dir.toList) h
  rw [join, String.toList_ofList, hpieces, List.getLast?_append_of_ne_nil _ (pieces_ne_nil _)]

theorem mem_joinList {d : List Char} (h : c ∈ joinList d p) : c ∈ d ∨ c = '/' ∨ c ∈ p := by
  rw [joinList] at h
  split at h
  · exact Or.inr (Or.inr h)
  · split at h
    · exact (List.mem_append.mp h).imp_right Or.inr
    · rw [List.mem_append, List.mem_cons] at h
      exact h

/-! ## Extensions -/

theorem suffixList_isSuffix (name : List Char) : suffixList name <:+ name := by
  by_cases hpoint : '.' ∈ name
  · obtain ⟨ending, front, hname, hending⟩ :=
      List.eq_append_cons_of_mem (List.mem_reverse.mpr hpoint)
    have hsuffix : '.' :: ending.reverse <:+ name := by
      refine ⟨front.reverse, ?_⟩
      rw [← List.reverse_reverse name, hname, List.reverse_append, List.reverse_cons,
        List.append_assoc, List.singleton_append]
    rcases suffixList_of_suffix (fun h ↦ hending (List.mem_reverse.mp h)) hsuffix with h | h
    · exact h ▸ List.nil_suffix
    · exact h ▸ hsuffix
  · have hwhole : name.reverse.takeWhile (· != '.') = name.reverse := by
      rw [List.takeWhile_eq_self_iff]
      intro c hc
      exact bne_iff_ne.mpr fun heq ↦ hpoint (heq ▸ List.mem_reverse.mp hc)
    rw [suffixList, hwhole, if_pos (by simp)]
    exact List.nil_suffix

/-- A path that has an extension ends in a name. -/
theorem exists_isName_of_suffix (h : suffix path ≠ "") : ∃ above name,
    namesOn path = above ++ [name] ∧ IsName name ∧ (suffix path).toList <:+ name.toList := by
  rcases List.eq_nil_or_concat' (namesOn path) with hnil | ⟨above, name, hnames⟩
  · rw [namesOn, List.map_eq_nil_iff] at hnil
    rw [suffix, lastName, hnil] at h
    exact absurd rfl h
  · have hsuffix := suffix_of_namesOn_append hnames
    have hmem : name ∈ namesOn path := by
      rw [hnames]
      exact List.mem_append_right _ List.mem_cons_self
    refine ⟨above, name, hnames, ?_, ?_⟩
    · apply isName_of_mem_namesOn hmem
      rintro rfl
      exact h (hsuffix.trans rfl)
    · rw [hsuffix, String.toList_ofList]
      exact suffixList_isSuffix _

end Path

end CodeAtlas
