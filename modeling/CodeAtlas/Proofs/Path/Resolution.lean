import CodeAtlas.Proofs.Path.Normal
import CodeAtlas.Syntax.Outline

/-!
# What specifiers resolve to

A relative specifier is seen from the directory of the importer. If it is written as a directory,
its index file is meant, and the default extension is added to what has none that is known.
Whatever points and slashes the specifier is made of, the text that comes out ends in a name with a
known extension, so that its normal form can be the key of a file (`resolve?_fileKey`).

Whether it is the key of the file that is meant is another matter. A specifier counts as a directory
if it ends in a slash, or if it is a point or a double point and nothing else, so that `../..` does
not (`resolve?_eq_index_iff`). And its ending has to be among the extensions as it is written, while
a file is known as a source by its ending in small letters (`resolve?_of_accepted`).
-/

namespace CodeAtlas.Path

open FileTree

/-! ## Extensions -/

/-- Is the text a point and what can follow the last point of a name, for instance letters and
digits? -/
structure IsExtension (e : String) : Prop where
  point : e.toList.head? = some '.'
  nonempty : e.toList.tail ≠ []
  pointless : '.' ∉ e.toList.tail
  slashless : '/' ∉ e.toList
  nullless : '\x00' ∉ e.toList

instance (e : String) : Decidable (IsExtension e) :=
  decidable_of_iff (e.toList.head? = some '.' ∧ e.toList.tail ≠ [] ∧ '.' ∉ e.toList.tail ∧
      '/' ∉ e.toList ∧ '\x00' ∉ e.toList)
    ⟨fun ⟨h₁, h₂, h₃, h₄, h₅⟩ ↦ ⟨h₁, h₂, h₃, h₄, h₅⟩,
      fun ⟨h₁, h₂, h₃, h₄, h₅⟩ ↦ ⟨h₁, h₂, h₃, h₄, h₅⟩⟩

variable {exts : Extensions} {e raw name importer specifier dir key : String}

/-- With an extension at its end, any text without slashes can stand on a path. -/
theorem IsExtension.isName_append (h : IsExtension e) (hname : '/' ∉ name.toList) :
    IsName (name ++ e) := by
  obtain ⟨c, hc⟩ := List.exists_mem_of_ne_nil _ h.nonempty
  have hmem : c ∈ (name ++ e).toList := by
    rw [String.toList_append]
    exact List.mem_append_right _ (List.mem_of_mem_tail hc)
  have hpoint : c ≠ '.' := fun heq ↦ h.pointless (heq ▸ hc)
  have hne (s : String) (hs : ∀ d ∈ s.toList, d = '.') : name ++ e ≠ s :=
    fun heq ↦ hpoint (hs c (heq ▸ hmem))
  refine ⟨hne "" (by simp), hne "." (by simp), hne ".." (by simp), ?_⟩
  rw [String.toList_append]
  intro hslash
  exact (List.mem_append.mp hslash).elim hname h.slashless

theorem namesOn_of_pieces {ps : List (List Char)} {last : List Char}
    (h : pieces raw.toList = ps ++ [last]) :
    namesOn raw = (ps.filter fun s ↦ !isIdle s).map String.ofList
      ++ if isIdle last then [] else [String.ofList last] := by
  rw [namesOn, h, List.filter_append, List.filter_singleton, List.map_append]
  cases isIdle last <;> rfl

/-- An extension is added to the last piece of a text, which then is the last name on it. -/
theorem exists_namesOn_append (he : IsExtension e)
    (hlast : (pieces raw.toList).getLast? = some name.toList) :
    ∃ above, namesOn (raw ++ e) = above ++ [name ++ e] ∧
      namesOn raw = above ++ if isIdle name.toList then [] else [name] := by
  obtain ⟨ps, hps⟩ := List.getLast?_eq_some_iff.mp hlast
  have hslash : '/' ∉ name.toList := slashless_of_mem_pieces (List.mem_of_getLast? hlast)
  have hadded : pieces (raw ++ e).toList = ps ++ [(name ++ e).toList] := by
    rw [String.toList_append, String.toList_append]
    exact pieces_append_of_slashless he.slashless hps
  refine ⟨(ps.filter fun s ↦ !isIdle s).map String.ofList, ?_, ?_⟩
  · rw [namesOn_of_pieces hadded, (he.isName_append hslash).not_isIdle, String.ofList_toList]
    rfl
  · rw [namesOn_of_pieces hps, String.ofList_toList]

theorem exists_getLast?_pieces (raw : String) :
    ∃ name : String, (pieces raw.toList).getLast? = some name.toList := by
  obtain ⟨last, hlast⟩ := Option.ne_none_iff_exists'.mp
    (mt List.getLast?_eq_none_iff.mp (pieces_ne_nil raw.toList))
  exact ⟨String.ofList last, by rw [hlast, String.toList_ofList]⟩

/-! ## Completed texts -/

/-- A text with the default extension, unless it has one that is known. -/
def completed (exts : Extensions) (raw : String) : String :=
  if exts.known.contains (suffix raw) then raw else raw ++ exts.default

theorem completed_of_mem (h : suffix raw ∈ exts.known) : completed exts raw = raw :=
  if_pos (List.contains_iff_mem.mpr h)

theorem completed_of_not_mem (h : suffix raw ∉ exts.known) :
    completed exts raw = raw ++ exts.default :=
  if_neg fun hmem ↦ h (List.contains_iff_mem.mp hmem)

/-- **A completed text** ends in a name with a known extension. -/
theorem exists_namesOn_completed (hknown : ∀ e ∈ exts.known, IsExtension e)
    (hdefault : exts.default ∈ exts.known) (raw : String) : ∃ above name e,
      namesOn (completed exts raw) = above ++ [name] ∧ IsName name ∧
      e ∈ exts.known ∧ e.toList <:+ name.toList := by
  by_cases hsuffix : suffix raw ∈ exts.known
  · have hne : suffix raw ≠ "" := by
      intro hempty
      exact absurd (hempty ▸ hknown _ hsuffix) (by decide)
    obtain ⟨above, name, hnames, hname, hend⟩ := exists_isName_of_suffix hne
    rw [completed_of_mem hsuffix]
    exact ⟨above, name, _, hnames, hname, hsuffix, hend⟩
  · obtain ⟨name, hlast⟩ := exists_getLast?_pieces raw
    obtain ⟨above, hnames, -⟩ := exists_namesOn_append (hknown _ hdefault) hlast
    rw [completed_of_not_mem hsuffix]
    refine ⟨above, _, _, hnames, (hknown _ hdefault).isName_append ?_, hdefault, ?_⟩
    · exact slashless_of_mem_pieces (List.mem_of_getLast? hlast)
    · rw [String.toList_append]
      exact List.suffix_append _ _

/-! ## Specifiers -/

theorem isRelative_iff : isRelative specifier = true ↔ specifier = "." ∨ specifier = ".." ∨
    "./".toList <+: specifier.toList ∨ "../".toList <+: specifier.toList := by
  simp [isRelative, or_assoc]

theorem head?_of_isRelative (h : isRelative specifier = true) :
    specifier.toList.head? ≠ some '/' := by
  rcases isRelative_iff.mp h with rfl | rfl | ⟨rest, hrest⟩ | ⟨rest, hrest⟩
  · decide
  · decide
  · rw [← hrest]
    simp
  · rw [← hrest]
    simp

/-- A specifier is written as a directory if a slash ends it, or if it is nothing but points. -/
theorem namesIndex_iff : namesIndex specifier = true
    ↔ specifier = "." ∨ specifier = ".." ∨ specifier.toList.getLast? = some '/' := by
  rw [namesIndex, Bool.or_eq_true, Bool.or_eq_true, beq_iff_eq, beq_iff_eq, beq_iff_eq, or_assoc]
  by_cases hslash : specifier.toList.getLast? = some '/'
  · exact iff_of_true (Or.inr (Or.inr hslash)) (Or.inr (Or.inr hslash))
  · have hbare : (specifier.toList.reverse.dropWhile (· == '/')).reverse = specifier.toList := by
      rcases List.eq_nil_or_concat' specifier.toList with hnil | ⟨front, c, hfront⟩
      · rw [hnil]
        rfl
      · rw [hfront, List.getLast?_concat, Option.some.injEq] at hslash
        rw [hfront, List.reverse_append, List.reverse_singleton, List.singleton_append,
          List.dropWhile_cons_of_neg (by simpa using hslash), List.reverse_cons,
          List.reverse_reverse]
    have heq (s : String) : specifier.toList = s.toList ↔ specifier = s := String.toList_inj
    rw [hbare]
    exact or_congr (heq ".") (or_congr (heq "..") Iff.rfl)

theorem target_eq : target exts importer specifier = completed exts
    (if namesIndex specifier then join (join (directory importer) specifier) "index"
      else join (directory importer) specifier) :=
  rfl

theorem resolve?_of_isRelative (h : isRelative specifier = true) :
    resolve? exts importer specifier = normal? (target exts importer specifier) :=
  if_pos h

theorem mem_join {c : Char} (h : c ∈ (join dir raw).toList) :
    c ∈ dir.toList ∨ c = '/' ∨ c ∈ raw.toList := by
  rw [join, String.toList_ofList] at h
  exact mem_joinList h

theorem nullless_join (hdir : '\x00' ∉ dir.toList) (hraw : '\x00' ∉ raw.toList) :
    '\x00' ∉ (join dir raw).toList := by
  intro hmem
  rcases mem_join hmem with hmem | hmem | hmem
  · exact hdir hmem
  · exact absurd hmem (by decide)
  · exact hraw hmem

theorem nullless_completed (hdefault : IsExtension exts.default) (hraw : '\x00' ∉ raw.toList) :
    '\x00' ∉ (completed exts raw).toList := by
  rw [completed]
  split
  · exact hraw
  · rw [String.toList_append, List.mem_append, not_or]
    exact ⟨hraw, hdefault.nullless⟩

/-- No null character comes in when a specifier is completed. -/
theorem nullless_target (hdefault : IsExtension exts.default)
    (hraw : '\x00' ∉ (join (directory importer) specifier).toList) :
    '\x00' ∉ (target exts importer specifier).toList := by
  rw [target_eq]
  apply nullless_completed hdefault
  split
  · exact nullless_join hraw (by decide)
  · exact hraw

/-! ## Keys of files -/

/-- Can the text be the key of a file with one of the extensions? -/
structure IsFileKey (exts : Extensions) (key : String) : Prop where
  /-- It is absolute, and its segments are names: none is empty, a point or a double point. -/
  absolute : ∃ names, names ≠ [] ∧ (∀ name ∈ names, IsName name) ∧
    key = "/" ++ String.intercalate "/" names
  /-- It is its own normal form. -/
  normal : normal? key = some key
  extension : ∃ e ∈ exts.known, e.toList <:+ key.toList

theorem isFileKey_normal_completed (hknown : ∀ e ∈ exts.known, IsExtension e)
    (hdefault : exts.default ∈ exts.known) (hnull : '\x00' ∉ (completed exts raw).toList) :
    IsFileKey exts (normal (completed exts raw)) := by
  obtain ⟨above, name, e, hnames, hname, he, hend⟩ := exists_namesOn_completed hknown hdefault raw
  have hplace := plainPlace_of_namesOn_append hnames hname
  have hne : plainPlace (completed exts raw) ≠ [] := by
    rw [hplace]
    exact List.append_ne_nil_of_right_ne_nil _ (List.cons_ne_nil _ _)
  refine ⟨⟨_, hne, fun _ ↦ isName_of_mem_plainPlace, ?_⟩, ?_, e, he, ?_⟩
  · rw [normal_eq_pathOf, pathOf_eq]
  · exact normal?_of_normal? (normal?_eq_some_iff.mpr ⟨hnull, rfl⟩)
  · rw [normal_eq_pathOf, pathOf_eq, hplace, String.toList_append]
    refine List.IsSuffix.trans ?_ (List.suffix_append _ _)
    exact (suffix_intercalate_iff (hknown e he).slashless).mpr hend

/-- **What a specifier resolves to** is the specifier itself if it names a package, and else can be
the key of a file, unless there is a null character. All that counts of the importer is its
directory. -/
theorem resolve?_fileKey (hknown : ∀ e ∈ exts.known, IsExtension e)
    (hdefault : exts.default ∈ exts.known) (importer specifier : String) :
    (¬ (specifier = "." ∨ specifier = ".." ∨
        "./".toList <+: specifier.toList ∨ "../".toList <+: specifier.toList) →
      resolve? exts importer specifier = some specifier) ∧
    ((specifier = "." ∨ specifier = ".." ∨
        "./".toList <+: specifier.toList ∨ "../".toList <+: specifier.toList) →
      '\x00' ∉ (directory importer).toList → '\x00' ∉ specifier.toList →
      ∃ key, resolve? exts importer specifier = some key ∧ IsFileKey exts key ∧
        ∀ importer', directory importer' = directory importer →
          resolve? exts importer' specifier = some key) := by
  rw [← isRelative_iff]
  refine ⟨fun hpackage ↦ if_neg hpackage, fun hrelative himporter hspecifier ↦ ?_⟩
  have hnull : '\x00' ∉ (target exts importer specifier).toList :=
    nullless_target (hknown _ hdefault) (nullless_join himporter hspecifier)
  have hresolve : resolve? exts importer specifier
      = some (normal (target exts importer specifier)) := by
    rw [resolve?_of_isRelative hrelative, normal?_eq_some_iff]
    exact ⟨hnull, rfl⟩
  refine ⟨_, hresolve, isFileKey_normal_completed hknown hdefault hnull, ?_⟩
  intro importer' hdirectory
  rw [← hresolve, resolve?_of_isRelative hrelative, resolve?_of_isRelative hrelative, target_eq,
    target_eq, hdirectory]

/-- Two extensions, of which the first is added. -/
def twoExtensions : Extensions := ⟨[".ts", ".js"], ".ts"⟩

theorem isExtension_of_mem_two : ∀ e ∈ twoExtensions.known, IsExtension e := by decide

theorem resolve?_fileKey_aboveRoot :
    (∀ e ∈ twoExtensions.known, IsExtension e) ∧ twoExtensions.default ∈ twoExtensions.known ∧
    resolve? twoExtensions "/p/a.ts" "lib.js" = some "lib.js" ∧
    resolve? twoExtensions "/p/a.ts" "../../lib//./user.service" = some "/lib/user.service.ts" ∧
    IsFileKey twoExtensions "/lib/user.service.ts" := by
  have hdefault : twoExtensions.default ∈ twoExtensions.known := by decide
  have hkey : resolve? twoExtensions "/p/a.ts" "../../lib//./user.service"
      = some "/lib/user.service.ts" := by decide
  obtain ⟨key, hresolve, hfile, -⟩ :=
    (resolve?_fileKey isExtension_of_mem_two hdefault "/p/a.ts" "../../lib//./user.service").2
      (by decide) (by decide) (by decide)
  obtain rfl : key = "/lib/user.service.ts" := Option.some.inj (hresolve.symm.trans hkey)
  exact ⟨isExtension_of_mem_two, hdefault,
    (resolve?_fileKey isExtension_of_mem_two hdefault "/p/a.ts" "lib.js").1 (by decide), hkey, hfile⟩

/-- A specifier with a null character resolves to nothing. -/
theorem not_forall_fileKey : ¬ ∀ (exts : Extensions) (importer specifier : String),
    (∀ e ∈ exts.known, IsExtension e) → exts.default ∈ exts.known →
    importer.toList.head? = some '/' → isRelative specifier = true →
    ∃ key, resolve? exts importer specifier = some key ∧ IsFileKey exts key := by
  intro hall
  have hnone : resolve? twoExtensions "/p/a.ts" "./a\x00" = none := by decide
  obtain ⟨key, hresolve, -⟩ :=
    hall twoExtensions "/p/a.ts" "./a\x00" isExtension_of_mem_two (by decide) (by decide) (by decide)
  rw [hnone] at hresolve
  exact nomatch hresolve

/-! ## Index files -/

/-- The last name of a specifier that is seen from a directory is that of the specifier. -/
theorem getLast?_pieces_seen (h : isRelative specifier = true) :
    (pieces (join (directory importer) specifier).toList).getLast?
      = (pieces specifier.toList).getLast? :=
  getLast?_pieces_join (head?_of_isRelative h)

/-- The index file of a directory is a name below the place of the directory. -/
theorem plainPlace_index (hknown : "" ∉ exts.known) (hdefault : IsExtension exts.default) :
    plainPlace (completed exts (join raw "index"))
      = plainPlace raw ++ ["index" ++ exts.default] := by
  have hnames : namesOn (join raw "index") = namesOn raw ++ ["index"] := namesOn_join (by decide)
  have hsuffix : suffix (join raw "index") = "" := suffix_of_namesOn_append hnames
  have hlast : (pieces (join raw "index").toList).getLast? = some "index".toList :=
    getLast?_pieces_join (by decide)
  obtain ⟨above, hadded, habove⟩ := exists_namesOn_append hdefault hlast
  rw [if_neg (by decide)] at habove
  obtain ⟨rfl, -⟩ := List.append_inj' (hnames.symm.trans habove) rfl
  rw [completed_of_not_mem (hsuffix ▸ hknown),
    plainPlace_of_namesOn_append hadded (hdefault.isName_append (by decide))]
  rfl

/-- A text that ends in no name does not become an index file by an extension. -/
theorem plainPlace_completed_ne_index (hdefault : IsExtension exts.default)
    (hlast : (pieces raw.toList).getLast? = some name.toList) (hne : name ≠ "index") :
    plainPlace (completed exts raw) ≠ plainPlace raw ++ ["index" ++ exts.default] := by
  intro heq
  rw [completed] at heq
  split at heq
  -- Without an addition a name is missing, and with one the last name is another.
  · exact absurd (congrArg List.length heq) (by simp)
  · obtain ⟨above, hadded, -⟩ := exists_namesOn_append hdefault hlast
    have hslash : '/' ∉ name.toList := slashless_of_mem_pieces (List.mem_of_getLast? hlast)
    rw [plainPlace_of_namesOn_append hadded (hdefault.isName_append hslash)] at heq
    have hname := List.singleton_inj.mp (List.append_inj_right' heq rfl)
    exact hne ((String.append_left_inj _).mp hname)

theorem join_normal (hname : IsName name) :
    join (normal raw) name = pathOf (plainPlace raw ++ [name]) := by
  have hjoin : join (pathOf (plainPlace raw)) (String.intercalate "/" [name])
      = pathOf (plainPlace raw ++ [name]) :=
    join_pathOf (fun _ ↦ isName_of_mem_plainPlace) (by simpa using hname) (List.cons_ne_nil _ _)
  rw [String.intercalate_singleton] at hjoin
  rw [normal_eq_pathOf, hjoin]

/-- Is the specifier that of a directory, as it is written: does it end in a slash, or is its last
segment a point or a double point? -/
def NamesDirectory (specifier : String) : Prop :=
  ∃ last ∈ ["", ".", ".."], (pieces specifier.toList).getLast? = some last.toList

instance (specifier : String) : Decidable (NamesDirectory specifier) :=
  inferInstanceAs (Decidable (∃ last ∈ ["", ".", ".."], _))

/-- **A specifier of a directory** resolves to the index file exactly if it is a point or a double
point and nothing else, or ends in a slash. -/
theorem resolve?_eq_index_iff (hknown : ∀ e ∈ exts.known, IsExtension e)
    (hdefault : IsExtension exts.default) (hrelative : isRelative specifier = true)
    (hdirectory : NamesDirectory specifier)
    (hdir : normal? (join (directory importer) specifier) = some dir) :
    resolve? exts importer specifier = some (join dir ("index" ++ exts.default))
      ↔ specifier = "." ∨ specifier = ".." ∨ specifier.toList.getLast? = some '/' := by
  obtain ⟨hnull, rfl⟩ := normal?_eq_some_iff.mp hdir
  obtain ⟨last, hlast, hpieces⟩ := hdirectory
  have hempty : "" ∉ exts.known := fun hmem ↦ absurd (hknown _ hmem) (by decide)
  have hindex : IsName ("index" ++ exts.default) := hdefault.isName_append (by decide)
  have hnames : ∀ name ∈ plainPlace (join (directory importer) specifier)
      ++ ["index" ++ exts.default], IsName name :=
    List.forall_mem_append.mpr ⟨fun _ ↦ isName_of_mem_plainPlace, by simpa using hindex⟩
  -- Both texts are paths of places, so they are equal if the places are.
  rw [← namesIndex_iff, resolve?_of_isRelative hrelative, normal?_eq_some_iff,
    and_iff_right (nullless_target hdefault hnull), join_normal hindex, normal_eq_pathOf,
    pathOf_inj (fun _ ↦ isName_of_mem_plainPlace) hnames, target_eq]
  cases namesIndex specifier with
  | true => exact iff_of_true (plainPlace_index hempty hdefault) rfl
  | false =>
    refine iff_of_false ?_ Bool.false_ne_true
    apply plainPlace_completed_ne_index hdefault ((getLast?_pieces_seen hrelative).trans hpieces)
    have hother : ∀ last ∈ ["", ".", ".."], last ≠ "index" := by decide
    exact hother last hlast

theorem resolve?_eq_index_upTwice :
    isRelative ".././../" = true ∧ NamesDirectory ".././../" ∧
    normal? (join (directory "/p/q/r/a.ts") ".././../") = some "/p" ∧
    resolve? twoExtensions "/p/q/r/a.ts" ".././../" = some "/p/index.ts" := by
  have hdir : normal? (join (directory "/p/q/r/a.ts") ".././../") = some "/p" := by decide
  have hdefault : IsExtension twoExtensions.default := isExtension_of_mem_two _ (by decide)
  have hiff := resolve?_eq_index_iff isExtension_of_mem_two hdefault (by decide) (by decide) hdir
  exact ⟨by decide, by decide, hdir, hiff.mpr (by decide)⟩

/-- Two double points are not known to be a directory. -/
theorem not_forall_resolve?_eq_index : ¬ ∀ (exts : Extensions) (importer specifier dir : String),
    (∀ e ∈ exts.known, IsExtension e) → IsExtension exts.default →
    importer.toList.head? = some '/' → isRelative specifier = true → NamesDirectory specifier →
    normal? (join (directory importer) specifier) = some dir →
    resolve? exts importer specifier = some (join dir ("index" ++ exts.default)) := by
  intro hall
  have hdefault : IsExtension twoExtensions.default := isExtension_of_mem_two _ (by decide)
  have hindex := hall twoExtensions "/p/q/r/a.ts" "../.." "/p" isExtension_of_mem_two hdefault
    (by decide) (by decide) (by decide) (by decide)
  exact absurd hindex (by decide)

/-! ## Files that are sources -/

/-- An extension is added to a path by adding it to the last name. -/
theorem pathOf_append {place : List String} :
    pathOf (place ++ [name]) ++ e = pathOf (place ++ [name ++ e]) := by
  apply String.toList_injective
  rw [String.toList_append, toList_pathOf (by simp), toList_pathOf (by simp)]
  simp

/-- A path that ends in a name has the same extension in normal form. -/
theorem suffix_normal {above : List String} (h : namesOn raw = above ++ [name])
    (hname : IsName name) : suffix (normal raw) = suffix raw := by
  have hnormal : namesOn (normal raw) = (above.foldl stepPlace []).reverse ++ [name] := by
    rw [normal_eq_pathOf, namesOn_pathOf fun _ ↦ isName_of_mem_plainPlace,
      plainPlace_of_namesOn_append h hname]
  rw [suffix_of_namesOn_append hnormal, suffix_of_namesOn_append h]

/-- A specifier that ends in a name is not taken for a directory. -/
theorem namesIndex_of_isName (hname : IsName name)
    (hlast : (pieces specifier.toList).getLast? = some name.toList) :
    namesIndex specifier = false := by
  rw [← Bool.not_eq_true, namesIndex_iff]
  rintro (rfl | rfl | hslash)
  · exact hname.ne_here (String.toList_injective (Option.some.inj hlast).symm)
  · exact hname.ne_above (String.toList_injective (Option.some.inj hlast).symm)
  · obtain ⟨front, hfront⟩ := List.getLast?_eq_some_iff.mp hslash
    rw [hfront, pieces_append_slash, List.getLast?_append_of_ne_nil _ (pieces_ne_nil _)] at hlast
    exact hname.toList_ne_nil (Option.some.inj hlast).symm

/-- A source is known by its ending in small letters. -/
theorem lowerCase_suffix_mem (h : (Syntax.dialect? exts key).isSome) :
    Text.lowerCase (suffix key) ∈ exts.known := by
  rw [Syntax.dialect?] at h
  split at h
  · rename_i hmem
    exact List.contains_iff_mem.mp hmem
  · exact absurd h Bool.false_ne_true

/-- **The file that a specifier names** is what it resolves to if the ending of the file is known as
it is written, for instance in small letters. Otherwise the default extension is put behind it. -/
theorem resolve?_of_accepted (hrelative : isRelative specifier = true) (hname : IsName name)
    (hlast : (pieces specifier.toList).getLast? = some name.toList)
    (hkey : normal? (join (directory importer) specifier) = some key)
    (haccepted : (Syntax.dialect? exts key).isSome) :
    (suffix key ∈ exts.known ∨ Text.lowerCase (suffix key) = suffix key →
      resolve? exts importer specifier = some key) ∧
    (suffix key ∉ exts.known → IsExtension exts.default →
      resolve? exts importer specifier = some (key ++ exts.default)) := by
  have hraw := hkey
  obtain ⟨hnull, rfl⟩ := normal?_eq_some_iff.mp hkey
  have hseen : (pieces (join (directory importer) specifier).toList).getLast? = some name.toList :=
    (getLast?_pieces_seen hrelative).trans hlast
  obtain ⟨ps, hps⟩ := List.getLast?_eq_some_iff.mp hseen
  have hnames := namesOn_of_pieces hps
  rw [hname.not_isIdle, if_neg Bool.false_ne_true, String.ofList_toList] at hnames
  have hresolve : resolve? exts importer specifier
      = normal? (completed exts (join (directory importer) specifier)) := by
    rw [resolve?_of_isRelative hrelative, target_eq, namesIndex_of_isName hname hlast,
      if_neg Bool.false_ne_true]
  -- The normal form keeps the last name, so it is the same ending that both lists are asked for.
  have hsuffix := suffix_normal hnames hname
  refine ⟨fun hending ↦ ?_, fun hending hdefault ↦ ?_⟩
  · have hmem : suffix (normal (join (directory importer) specifier)) ∈ exts.known :=
      hending.elim id fun hlower ↦ hlower ▸ lowerCase_suffix_mem haccepted
    rw [hresolve, completed_of_mem (hsuffix ▸ hmem), hraw]
  · obtain ⟨above, hadded, habove⟩ := exists_namesOn_append hdefault hseen
    rw [hname.not_isIdle, if_neg Bool.false_ne_true] at habove
    have hcompleted : completed exts (join (directory importer) specifier)
        = join (directory importer) specifier ++ exts.default :=
      completed_of_not_mem (hsuffix ▸ hending)
    rw [hresolve, normal?_eq_some_iff]
    refine ⟨nullless_completed hdefault hnull, ?_⟩
    rw [hcompleted, normal_eq_pathOf, normal_eq_pathOf, plainPlace_of_namesOn_append habove hname,
      plainPlace_of_namesOn_append hadded (hdefault.isName_append hname.slashless), pathOf_append]

/-- A file of another directory, with several points and an ending in small letters. -/
theorem resolve?_of_accepted_inDirectory :
    normal? (join (directory "/p/src/a.ts") "../lib/./.util.min.js") = some "/p/lib/.util.min.js" ∧
    (Syntax.dialect? twoExtensions "/p/lib/.util.min.js").isSome ∧
    resolve? twoExtensions "/p/src/a.ts" "../lib/./.util.min.js" = some "/p/lib/.util.min.js" := by
  have hkey : normal? (join (directory "/p/src/a.ts") "../lib/./.util.min.js")
      = some "/p/lib/.util.min.js" := by decide
  have haccepted : (Syntax.dialect? twoExtensions "/p/lib/.util.min.js").isSome := by decide
  have hlast : (pieces "../lib/./.util.min.js".toList).getLast? = some ".util.min.js".toList := by
    decide
  exact ⟨hkey, haccepted, (resolve?_of_accepted (by decide) (by decide) hlast hkey haccepted).1
    (Or.inr (by decide))⟩

/-- A source with an ending in capitals is not what its specifier resolves to. -/
theorem not_forall_resolve?_of_accepted : ¬ ∀ (exts : Extensions)
    (importer specifier name key : String), importer.toList.head? = some '/' →
    isRelative specifier = true → IsName name →
    (pieces specifier.toList).getLast? = some name.toList →
    normal? (join (directory importer) specifier) = some key →
    (Syntax.dialect? exts key).isSome → resolve? exts importer specifier = some key := by
  intro hall
  have hresolve := hall twoExtensions "/p/a.ts" "./Legacy.JS" "Legacy.JS" "/p/Legacy.JS" (by decide)
    (by decide) (by decide) (by decide) (by decide) (by decide)
  exact absurd hresolve (by decide)

end CodeAtlas.Path
