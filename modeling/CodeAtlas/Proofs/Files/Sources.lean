import CodeAtlas.Proofs.Files.Traversal
import CodeAtlas.Settings

/-!
# The sources that a scan returns

The rules are put to the place of an entry: its suffix, its path below the directory that is scanned,
and the names of the directories in between. What is returned is the real path. In a tree without
links the two say the same, and the scan returns the paths of exactly those files that the rules
leave, each once and in the order of a walk (`sources_scan_of_linkless`). Files are all entries that
are no directories, so that some of them may not be regular (`not_forall_regular`).

An entry that passes the rules is `Listed`. The definition admits links, which count as the file that
they lead to. Nothing here depends on how the ignore file is read: what is ignored is a parameter, and
`scan_of_ignoreRules` says what it is in a scan.
-/

namespace CodeAtlas

/-! ## Relative paths -/

namespace Scan

/-- The path of names below the directory that is scanned. -/
theorem foldl_under {names : List String} (h : ∀ name ∈ names, IsName name) :
    names.foldl under "" = String.intercalate "/" names := by
  induction names using List.reverseRecOn with
  | nil => rfl
  | append_singleton names name ih =>
    rw [List.forall_mem_append] at h
    rw [List.foldl_concat, ih h.1, under]
    rcases eq_or_ne names [] with rfl | hne
    · rw [List.nil_append, String.intercalate_nil, if_pos (by decide), String.intercalate_singleton]
    · have hempty : ¬ (String.intercalate "/" names).isEmpty = true := fun hempty ↦
        FileTree.intercalate_ne_empty h.1 hne (String.isEmpty_iff.mp hempty)
      rw [if_neg hempty,
        String.intercalate_append_of_ne_nil hne (List.cons_ne_nil _ _), String.intercalate_singleton]

end Scan

/-! ## Judging what is at a place -/

namespace FileTree

/-- The size of the file that an entry stands for, through links if it is one. -/
def entrySize? (root : FileTree) (place : List String) : Option Nat :=
  match root.at? place with
  | some (link _) => root.sizeAt? (pathOf place)
  | some t => t.fileSize?
  | none => none

variable {root : FileTree} {place : List String}

/-- A directory is no file. -/
theorem exists_of_entrySize? {size : Nat} (h : root.entrySize? place = some size) :
    ∃ u, root.at? place = some u ∧ ∀ entries, u ≠ directory entries := by
  rw [entrySize?] at h
  cases hu : root.at? place with
  | none =>
    rw [hu] at h
    exact nomatch h
  | some u =>
    refine ⟨u, rfl, ?_⟩
    rintro entries rfl
    rw [hu] at h
    exact nomatch h

/-- Where there is no link, the size is that of the entry itself. -/
theorem entrySize?_of_plain (h : ∀ target, root.at? place ≠ some (link target)) :
    root.entrySize? place = (root.at? place).bind fileSize? := by
  rw [entrySize?]
  cases hu : root.at? place with
  | none => rfl
  | some u =>
    cases u with
    | link target => exact absurd hu (h target)
    | file _ | special _ | directory _ => rfl

end FileTree

namespace Scan

variable {rules : ScanRules} {root t u : FileTree} {place names : List String}

theorem judge_eq_source {relative path realPath found : String} {size : Nat} :
    judge rules relative path realPath size = some (.source found)
      ↔ hasExtension rules.extensions path = true ∧ rules.ignores relative = false ∧
        (size : Int) ≤ rules.maxSize ∧ found = realPath := by
  rw [judge]
  split
  · rename_i hout
    constructor
    · intro h
      exact nomatch h
    · rintro ⟨hext, hkept, -, -⟩
      exact absurd hout (by simp [hext, hkept])
  · rename_i hin
    rw [Bool.or_eq_true, not_or, Bool.not_eq_true', Bool.not_eq_false, Bool.not_eq_true] at hin
    split
    · rename_i hlarge
      constructor
      · intro h
        exact nomatch h
      · rintro ⟨-, -, hsize, -⟩
        omega
    · rename_i hsize
      constructor
      · intro h
        exact ⟨hin.1, hin.2, not_lt.mp hsize, (Finding.source.inj (Option.some.inj h)).symm⟩
      · rintro ⟨-, -, -, rfl⟩
        rfl

/-- What a scan makes of an entry depends on the size of what it stands for and on its place. -/
theorem visitFile_eq (hroot : root.Proper) (h : root.at? place = some u) (relative path : String)
    (hpath : Path.join path relative = FileTree.pathOf place) :
    visitFile rules root path relative u = (root.entrySize? place).bind
      (judge rules relative (FileTree.pathOf place) (root.realPath (FileTree.pathOf place))) := by
  rw [FileTree.entrySize?, h]
  cases u with
  | file _ | special _ =>
    rw [FileTree.realPath_pathOf hroot h fun _ ↦ FileTree.noConfusion, ← hpath]
    rfl
  | link _ =>
    rw [← hpath]
    rfl
  | directory _ => simp [visitFile, FileTree.fileSize?]

/-- The entry passes the rules of a scan at a place. -/
structure Listed (rules : ScanRules) (root : FileTree) (place names : List String) : Prop where
  sized : ∃ size : Nat, root.entrySize? (place ++ names) = some size ∧ size ≤ rules.maxSize
  extension : Text.lowerCase (Path.suffix (FileTree.pathOf (place ++ names))) ∈ rules.extensions
  kept : rules.ignores (String.intercalate "/" names) = false
  entered : ∀ above name below, names = above ++ name :: below → below ≠ [] →
    name ∉ skippedDirectories ∧
      rules.ignores (String.intercalate "/" (above ++ [name]) ++ "/") = false

namespace Listed

theorem exists_entry (h : Listed rules root place names) :
    ∃ u, root.at? (place ++ names) = some u ∧ ∀ entries, u ≠ .directory entries := by
  obtain ⟨size, hsize, -⟩ := h.sized
  exact FileTree.exists_of_entrySize? hsize

theorem ne_nil (h : Listed rules root place names) {entries : List (String × FileTree)}
    (hdir : root.at? place = some (.directory entries)) : names ≠ [] := by
  rintro rfl
  obtain ⟨u, hu, hfile⟩ := h.exists_entry
  rw [List.append_nil, hdir] at hu
  exact hfile entries (Option.some.inj hu).symm

theorem isName (h : Listed rules root place names) (hroot : root.Proper) :
    ∀ name ∈ place ++ names, IsName name := by
  obtain ⟨u, hu, -⟩ := h.exists_entry
  exact (hroot.at? hu).2

/-- What is no link is returned under its own path. -/
theorem realPath_eq (h : Listed rules root place names) (hroot : root.Proper)
    (hplain : ∀ target, root.at? (place ++ names) ≠ some (.link target)) :
    root.realPath (FileTree.pathOf (place ++ names)) = FileTree.pathOf (place ++ names) := by
  obtain ⟨u, hu, -⟩ := h.exists_entry
  exact FileTree.realPath_pathOf hroot hu fun target heq ↦ hplain target (heq ▸ hu)

/-- Two entries have two paths. -/
theorem pathOf_inj {names' : List String} (h : Listed rules root place names)
    (h' : Listed rules root place names') (hroot : root.Proper) :
    FileTree.pathOf (place ++ names) = FileTree.pathOf (place ++ names') ↔ names = names' := by
  rw [FileTree.pathOf_inj (h.isName hroot) (h'.isName hroot), List.append_right_inj]

end Listed

/-- The names above the last one are those of the directories on the way. -/
theorem mem_dropLast_iff {name : String} : name ∈ names.dropLast
    ↔ ∃ above below, names = above ++ name :: below ∧ below ≠ [] := by
  constructor
  · intro hname
    have hne : names ≠ [] := by
      rintro rfl
      exact List.not_mem_nil hname
    obtain ⟨above, below, hnames⟩ := List.append_of_mem hname
    refine ⟨above, below ++ [names.getLast hne], ?_, by simp⟩
    rw [← List.cons_append, ← List.append_assoc, ← hnames, List.dropLast_append_getLast]
  · rintro ⟨above, below, rfl, hbelow⟩
    rw [List.dropLast_append_of_ne_nil (List.cons_ne_nil _ _), List.dropLast_cons_of_ne_nil hbelow]
    exact List.mem_append_right _ List.mem_cons_self

theorem entered_iff (h : ∀ name ∈ names, IsName name) : Entered rules "" names
    ↔ ∀ above name below, names = above ++ name :: below → below ≠ [] →
      name ∉ skippedDirectories ∧
        rules.ignores (String.intercalate "/" (above ++ [name]) ++ "/") = false := by
  refine forall_congr' fun above ↦ forall_congr' fun name ↦ forall_congr' fun below ↦
    forall_congr' fun hnames ↦ forall_congr' fun _ ↦ ?_
  have habove : ∀ name' ∈ above ++ [name], IsName name' := by
    intro name' hname'
    refine h name' ?_
    rw [hnames, ← List.singleton_append, ← List.append_assoc]
    exact List.mem_append_left _ hname'
  rw [foldl_under habove, enters, Bool.and_eq_true, Bool.not_eq_true', Bool.not_eq_true',
    List.contains_eq_mem, decide_eq_false_iff_not]

/-- The path that is reported for a finding, if it is a source. -/
def source? : Finding → Option String
  | .source path => some path
  | .tooLarge _ => none

theorem sources_eq (findings : List Finding) : sources findings = findings.filterMap source? := by
  rw [sources]
  refine List.filterMap_congr fun finding _ ↦ ?_
  cases finding with
  | source _ | tooLarge _ => rfl

theorem source?_eq_some {finding : Finding} {found : String} :
    source? finding = some found ↔ finding = .source found := by
  cases finding with
  | source _ => simp [source?]
  | tooLarge _ => simp [source?]

theorem filterMap_eq_map_filter {α β : Type} {f : α → Option β} {g : α → β} {l : List α}
    (h : ∀ a ∈ l, ∀ b, f a = some b → b = g a) :
    l.filterMap f = (l.filter fun a ↦ (f a).isSome).map g := by
  rw [← List.filterMap_eq_map, List.filterMap_filter]
  refine List.filterMap_congr fun a ha ↦ ?_
  cases hf : f a with
  | none => rfl
  | some b => rw [h a ha b hf]; rfl

variable {entries : List (String × FileTree)}

/-- The path that a scan at a place returns for an entry, if it is a source. -/
def sourceAt? (rules : ScanRules) (root : FileTree) (place names : List String) : Option String :=
  ((root.at? (place ++ names)).bind
    (visitFile rules root (FileTree.pathOf place) (names.foldl under ""))).bind source?

theorem sourceAt?_eq_some (hroot : root.Proper) (hu : root.at? (place ++ names) = some u)
    (hne : names ≠ []) {found : String} : sourceAt? rules root place names = some found
      ↔ found = root.realPath (FileTree.pathOf (place ++ names)) ∧
        (∃ size : Nat, root.entrySize? (place ++ names) = some size ∧ size ≤ rules.maxSize) ∧
        Text.lowerCase (Path.suffix (FileTree.pathOf (place ++ names))) ∈ rules.extensions ∧
        rules.ignores (String.intercalate "/" names) = false := by
  have hall := (hroot.at? hu).2
  rw [List.forall_mem_append] at hall
  rw [sourceAt?, hu, Option.bind_some, foldl_under hall.2,
    visitFile_eq hroot hu _ _ (FileTree.join_pathOf hall.1 hall.2 hne)]
  simp only [Option.bind_eq_some_iff, source?_eq_some, exists_eq_right, judge_eq_source,
    hasExtension, List.contains_iff_mem]
  constructor
  · rintro ⟨size, hentry, hext, hkept, hsize, hfound⟩
    exact ⟨hfound, ⟨size, hentry, hsize⟩, hext, hkept⟩
  · rintro ⟨hfound, ⟨size, hentry, hsize⟩, hext, hkept⟩
    exact ⟨size, hentry, hext, hkept, hsize, hfound⟩

/-- **What a visit returns**: the real paths of the listed places, in the order of places. -/
theorem exists_places (rules : ScanRules) (hroot : root.Proper)
    (hdir : root.at? place = some (.directory entries)) : ∃ places : List (List String),
      sources (visit rules root (FileTree.pathOf place) "" (.directory entries))
        = places.map (fun names ↦ root.realPath (FileTree.pathOf (place ++ names))) ∧
      places.Pairwise Precedes ∧ ∀ names, names ∈ places ↔ Listed rules root place names := by
  have hproper : (FileTree.directory entries).Proper := (hroot.at? hdir).1
  have hat := FileTree.at?_below hdir
  have hvisit : sources (visit rules root (FileTree.pathOf place) "" (.directory entries))
      = (walk rules "" (.directory entries)).filterMap (sourceAt? rules root place) := by
    rw [sources_eq, visit_eq_filterMap hproper, List.filterMap_filterMap]
    refine List.filterMap_congr fun names _ ↦ ?_
    rw [sourceAt?, hat]
  have hwalk : ∀ names ∈ walk rules "" (.directory entries), names ≠ [] ∧
      ∃ u, root.at? (place ++ names) = some u := by
    intro names hnames
    obtain ⟨hne, hsome, -⟩ := (mem_walk hproper).mp hnames
    rw [hat]
    exact ⟨hne, Option.isSome_iff_exists.mp hsome⟩
  refine ⟨(walk rules "" (.directory entries)).filter fun names ↦
    (sourceAt? rules root place names).isSome, ?_, (pairwise_walk hproper).filter _, ?_⟩
  · rw [hvisit]
    refine filterMap_eq_map_filter fun names hnames found hfound ↦ ?_
    obtain ⟨hne, u, hu⟩ := hwalk names hnames
    exact ((sourceAt?_eq_some hroot hu hne).mp hfound).1
  · intro names
    rw [List.mem_filter, Option.isSome_iff_exists]
    constructor
    · rintro ⟨hnames, found, hfound⟩
      obtain ⟨hne, u, hu⟩ := hwalk names hnames
      obtain ⟨-, hsized, hext, hkept⟩ := (sourceAt?_eq_some hroot hu hne).mp hfound
      have hall : ∀ name ∈ names, IsName name := (hproper.at? (hat names ▸ hu)).2
      exact ⟨hsized, hext, hkept, (entered_iff hall).mp ((mem_walk hproper).mp hnames).2.2⟩
    · intro h
      obtain ⟨u, hu, -⟩ := h.exists_entry
      have hall : ∀ name ∈ names, IsName name := (hproper.at? (hat names ▸ hu)).2
      refine ⟨(mem_walk hproper).mpr ⟨h.ne_nil hdir, ?_, (entered_iff hall).mpr h.entered⟩, _,
        (sourceAt?_eq_some hroot hu (h.ne_nil hdir)).mpr ⟨rfl, h.sized, h.extension, h.kept⟩⟩
      rw [← hat, hu, Option.isSome_some]

end Scan

/-! ## Scanning -/

namespace FileTree

open Scan

variable {root : FileTree} {path : String} {rules : ScanRules}
  {entries : List (String × FileTree)}

/-- What is ignored in a scan is what the ignore file says. -/
theorem scan_of_ignoreRules {ignored : Option Pattern.IgnoreRules} (extensions : List String)
    (maxSize : Int) (hrules : root.ignoreRules? (root.realPath path) = .ok ignored) :
    root.scan extensions maxSize path
      = .ok (root.scanBy ⟨extensions, maxSize, ignoredBy ignored⟩ path) := by
  rw [scan, hrules]
  rfl

theorem scanBy_eq (hroot : root.Proper)
    (hdir : root.at? (root.placeOf path) = some (directory entries)) :
    root.scanBy rules path
      = visit rules root (pathOf (root.placeOf path)) "" (directory entries) := by
  have hplace : root.placeOf (root.realPath path) = root.placeOf path :=
    placeOf_pathOf hroot hdir fun _ ↦ FileTree.noConfusion
  rw [scanBy, hplace, hdir, realPath]

theorem at?_ne_link {place names : List String} (hdir : root.at? place = some (directory entries))
    (hlinks : (directory entries).linkCount = 0) (target : String) :
    root.at? (place ++ names) ≠ some (link target) := by
  intro hlink
  rw [at?_below hdir] at hlink
  exact absurd (linkCount_at? hlinks hlink) (by rw [linkCount]; decide)

/-- **What a scan of a tree without links returns**: the paths of the listed places, in the order of
places. -/
theorem exists_places_of_linkless (rules : ScanRules) (hroot : root.Proper)
    (hdir : root.at? (root.placeOf path) = some (directory entries))
    (hlinks : (directory entries).linkCount = 0) : ∃ places : List (List String),
      sources (root.scanBy rules path)
        = places.map (fun names ↦ pathOf (root.placeOf path ++ names)) ∧
      places.Pairwise Precedes ∧
      ∀ names, names ∈ places ↔ Listed rules root (root.placeOf path) names := by
  obtain ⟨places, hsources, hpairwise, hplaces⟩ := exists_places rules hroot hdir
  refine ⟨places, ?_, hpairwise, hplaces⟩
  rw [scanBy_eq hroot hdir, hsources]
  refine List.map_congr_left fun names hnames ↦ ?_
  exact ((hplaces names).mp hnames).realPath_eq hroot (at?_ne_link hdir hlinks)

theorem mem_sources_of_linkless (rules : ScanRules) (hroot : root.Proper)
    (hdir : root.at? (root.placeOf path) = some (directory entries))
    (hlinks : (directory entries).linkCount = 0) {found : String} :
    found ∈ sources (root.scanBy rules path) ↔ ∃ names,
      found = pathOf (root.placeOf path ++ names) ∧ Listed rules root (root.placeOf path) names := by
  obtain ⟨places, hsources, -, hplaces⟩ := exists_places_of_linkless rules hroot hdir hlinks
  rw [hsources, List.mem_map]
  constructor
  · rintro ⟨names, hnames, rfl⟩
    exact ⟨names, rfl, (hplaces names).mp hnames⟩
  · rintro ⟨names, rfl, h⟩
    exact ⟨names, (hplaces names).mpr h, rfl⟩

/-- Without links, it is the entry itself that has to be a file of the right size. -/
theorem listed_iff_of_linkless {place names : List String}
    (hdir : root.at? place = some (directory entries))
    (hlinks : (directory entries).linkCount = 0) : Listed rules root place names ↔
      (∃ t size, (directory entries).at? names = some t ∧ t.fileSize? = some size ∧
        size ≤ rules.maxSize) ∧
      Text.lowerCase (Path.suffix (pathOf (place ++ names))) ∈ rules.extensions ∧
      rules.ignores (String.intercalate "/" names) = false ∧
      ∀ above name below, names = above ++ name :: below → below ≠ [] →
        name ∉ skippedDirectories ∧
          rules.ignores (String.intercalate "/" (above ++ [name]) ++ "/") = false := by
  have hentry : root.entrySize? (place ++ names)
      = ((directory entries).at? names).bind fileSize? := by
    rw [entrySize?_of_plain (at?_ne_link hdir hlinks), at?_below hdir]
  constructor
  · rintro ⟨⟨size, hsize, hle⟩, hext, hkept, hentered⟩
    rw [hentry] at hsize
    obtain ⟨t, ht, hsize⟩ := Option.bind_eq_some_iff.mp hsize
    exact ⟨⟨t, size, ht, hsize, hle⟩, hext, hkept, hentered⟩
  · rintro ⟨⟨t, size, ht, hsize, hle⟩, hext, hkept, hentered⟩
    refine ⟨⟨size, ?_, hle⟩, hext, hkept, hentered⟩
    rw [hentry, ht, Option.bind_some, hsize]

/-- **A tree without links** is scanned for the files that the rules leave: those of a known suffix
and no more than the greatest size that are not ignored and have no directory above them that is
skipped or ignored. Each is returned once, the files of a directory before those below its
subdirectories, and by name otherwise. A special file counts as one of size zero.

What is ignored may be anything; in a scan it is what the ignore file says. -/
theorem sources_scan_of_linkless (s : Settings) (given : List String) (hroot : root.Proper)
    (hdir : root.at? (root.placeOf path) = some (directory entries))
    (hlinks : (directory entries).linkCount = 0) :
    (∀ ignored, root.ignoreRules? (root.realPath path) = .ok ignored →
      root.scan (s.extensionsOr given) s.maxFileSize path = .ok
        (root.scanBy ⟨s.extensionsOr given, s.maxFileSize, ignoredBy ignored⟩ path)) ∧
    ∀ ignores : String → Bool, ∃ places : List (List String),
      sources (root.scanBy ⟨s.extensionsOr given, s.maxFileSize, ignores⟩ path)
        = places.map (fun names ↦ pathOf (root.placeOf path ++ names)) ∧
      (places.map fun names ↦ pathOf (root.placeOf path ++ names)).Nodup ∧
      places.Pairwise Precedes ∧
      ∀ names, names ∈ places ↔
        (∃ t size, (directory entries).at? names = some t ∧ t.fileSize? = some size ∧
          size ≤ s.maxFileSize) ∧
        Text.lowerCase (Path.suffix (pathOf (root.placeOf path ++ names))) ∈ s.extensionsOr given ∧
        ignores (String.intercalate "/" names) = false ∧
        ∀ above name below, names = above ++ name :: below → below ≠ [] →
          name ∉ skippedDirectories ∧
            ignores (String.intercalate "/" (above ++ [name]) ++ "/") = false := by
  refine ⟨fun ignored hrules ↦ scan_of_ignoreRules _ _ hrules, fun ignores ↦ ?_⟩
  obtain ⟨places, hsources, hpairwise, hplaces⟩ := exists_places_of_linkless
    ⟨s.extensionsOr given, s.maxFileSize, ignores⟩ hroot hdir hlinks
  refine ⟨places, hsources, ?_, hpairwise, fun names ↦ ?_⟩
  · refine (Precedes.nodup hpairwise).map_on fun names hnames names' hnames' heq ↦ ?_
    exact (((hplaces names).mp hnames).pathOf_inj ((hplaces names').mp hnames') hroot).mp heq
  · exact (hplaces names).trans (listed_iff_of_linkless hdir hlinks)

/-- The rules of an ignore file that can be read pass a test if they do when they are computed. -/
theorem exists_ignoreRules? {content : ByteArray} (test : Pattern.IgnoreRules → Bool)
    (hread : root.read (Path.join path ".gitignore") = .ok content)
    (htest : (Pattern.IgnoreRules.ofBytes content.toList).toOption.any test = true) :
    ∃ rules, root.ignoreRules? path = .ok (some rules) ∧ test rules = true := by
  rw [ignoreRules?, hread]
  dsimp only
  cases hrules : Pattern.IgnoreRules.ofBytes content.toList with
  | error _ =>
    rw [hrules] at htest
    exact absurd htest Bool.false_ne_true
  | ok rules =>
    rw [hrules] at htest
    exact ⟨rules, rfl, htest⟩

/-- A directory in which some files are generated, some have been installed and one is a socket. -/
def checkout : FileTree :=
  .directory [("w", .directory [
    (".gitignore", .file "gen/\n*.d.ts\n".toUTF8),
    ("gen", .directory [("api.ts", .file .empty)]),
    ("node_modules", .directory [("dep.ts", .file .empty)]),
    ("src", .directory [("types.d.ts", .file .empty), ("live.ts", .special .missing),
      ("App.TS", .file .empty)])])]

theorem proper_checkout : checkout.Proper := by
  simp only [checkout, proper_directory, List.forall_mem_cons, List.not_mem_nil, false_implies,
    implies_true, and_true, Proper.file, Proper.special]
  decide

theorem placeOf_checkout : checkout.placeOf "/w" = ["w"] := by
  rw [placeOf_of_linkless rfl]
  decide

theorem at?_checkout : ∃ entries, checkout.at? (checkout.placeOf "/w") = some (directory entries) ∧
    (directory entries).linkCount = 0 ∧ ∀ names, (directory entries).at? names
      = checkout.at? ("w" :: names) := by
  rw [placeOf_checkout]
  exact ⟨_, rfl, rfl, fun _ ↦ rfl⟩

theorem ignoreRules?_checkout : ∃ rules,
    checkout.ignoreRules? (checkout.realPath "/w") = .ok (some rules) ∧
    rules.ignores "src/" = false ∧ rules.ignores "src/App.TS" = false ∧
    rules.ignores "src/live.ts" = false ∧ rules.ignores "src/types.d.ts" = true ∧
    rules.ignores "gen/" = true := by
  have hpath : plainPlace (Path.join (pathOf ["w"]) ".gitignore") = ["w", ".gitignore"] := by
    decide
  have hread : checkout.read (Path.join (pathOf ["w"]) ".gitignore")
      = .ok "gen/\n*.d.ts\n".toUTF8 := by
    rw [read, if_neg (by decide), placeOf_of_linkless rfl, hpath]
    rfl
  obtain ⟨rules, hrules, htest⟩ := exists_ignoreRules?
    (fun rules ↦ !rules.ignores "src/" && !rules.ignores "src/App.TS" && !rules.ignores "src/live.ts"
      && rules.ignores "src/types.d.ts" && rules.ignores "gen/") hread (by decide +kernel)
  rw [realPath, placeOf_checkout]
  exact ⟨rules, hrules, by simpa [and_assoc] using htest⟩

/-- Only the first of two names is that of a directory above. -/
theorem above_pair {a b name : String} {above below : List String}
    (h : [a, b] = above ++ name :: below) (hbelow : below ≠ []) : above = [] ∧ name = a := by
  cases above with
  | nil => exact ⟨rfl, (List.cons.inj h).1.symm⟩
  | cons _ above =>
    have hlength := congrArg List.length h
    have hpos := List.length_pos_iff.mpr hbelow
    simp only [List.length_append, List.length_cons, List.length_nil] at hlength
    omega

theorem sources_scan_checkout : ∃ (findings : List Finding) (places : List (List String)),
    checkout.scan [".ts"] Settings.standard.maxFileSize "/w" = .ok findings ∧
    sources findings = places.map (fun names ↦ pathOf ("w" :: names)) ∧
    (sources findings).Nodup ∧ places.Pairwise Precedes ∧
    ["src", "App.TS"] ∈ places ∧ ["src", "live.ts"] ∈ places ∧ ["src", "types.d.ts"] ∉ places ∧
    ["gen", "api.ts"] ∉ places ∧ ["node_modules", "dep.ts"] ∉ places := by
  obtain ⟨rules, hrules, hsrc, happ, hlive, htypes, hgen⟩ := ignoreRules?_checkout
  obtain ⟨entries, hdir, hlinks, hat⟩ := at?_checkout
  obtain ⟨hscan, hsources⟩ :=
    sources_scan_of_linkless Settings.standard [".ts"] proper_checkout hdir hlinks
  obtain ⟨places, hplaces, hnodup, hpairwise, hmem⟩ := hsources (ignoredBy (some rules))
  simp only [placeOf_checkout, hat] at hplaces hnodup hmem
  have hentered : ∀ name above below, ["src", name] = above ++ below → ∀ directory rest,
      below = directory :: rest → rest ≠ [] → directory ∉ skippedDirectories ∧
        ignoredBy (some rules) (String.intercalate "/" (above ++ [directory]) ++ "/") = false := by
    rintro name above below hnames directory rest rfl hrest
    obtain ⟨rfl, rfl⟩ := above_pair hnames hrest
    exact ⟨by decide, hsrc⟩
  refine ⟨_, places, hscan _ hrules, hplaces, hplaces ▸ hnodup, hpairwise, ?_, ?_, ?_, ?_, ?_⟩
  · refine (hmem _).mpr ⟨⟨_, 0, rfl, rfl, by decide⟩, by decide +kernel, happ, ?_⟩
    exact fun above name below hnames ↦ hentered _ above _ hnames name below rfl
  · refine (hmem _).mpr ⟨⟨_, 0, rfl, rfl, by decide⟩, by decide +kernel, hlive, ?_⟩
    exact fun above name below hnames ↦ hentered _ above _ hnames name below rfl
  · intro h
    have hkept := ((hmem _).mp h).2.2.1
    exact absurd (htypes.symm.trans hkept) (by decide)
  · intro h
    have hgenerated := ((hmem _).mp h).2.2.2 [] "gen" ["api.ts"] rfl (List.cons_ne_nil _ _)
    exact absurd (hgen.symm.trans hgenerated.2) (by decide)
  · intro h
    have hinstalled := ((hmem _).mp h).2.2.2 [] "node_modules" ["dep.ts"] rfl
      (List.cons_ne_nil _ _)
    exact hinstalled.1 (by decide)

/-- A scan of a tree without links may return what is no regular file, and if no extensions are given,
it returns files all the same. -/
theorem not_forall_regular :
    ¬ (∀ (root : FileTree) (entries : List (String × FileTree)) (s : Settings) (given : List String)
        (path : String) (findings : List Finding), root.Proper →
        root.at? (root.placeOf path) = some (directory entries) →
        (directory entries).linkCount = 0 →
        root.scan (s.extensionsOr given) s.maxFileSize path = .ok findings →
        ∀ names, pathOf (root.placeOf path ++ names) ∈ sources findings →
          ∃ content, (directory entries).at? names = some (file content)) ∧
    ¬ ∀ (root : FileTree) (entries : List (String × FileTree)) (s : Settings) (given : List String)
        (path : String) (findings : List Finding), root.Proper →
        root.at? (root.placeOf path) = some (directory entries) →
        (directory entries).linkCount = 0 →
        root.scan (s.extensionsOr given) s.maxFileSize path = .ok findings →
        ∀ found ∈ sources findings, Text.lowerCase (Path.suffix found) ∈ given := by
  obtain ⟨rules, hrules, hsrc, -, hlive, -, -⟩ := ignoreRules?_checkout
  obtain ⟨entries, hdir, hlinks, hat⟩ := at?_checkout
  have hfound (given : List String) (hgiven : ".ts" ∈ Settings.standard.extensionsOr given) :
      pathOf (checkout.placeOf "/w" ++ ["src", "live.ts"])
        ∈ sources (checkout.scanBy ⟨Settings.standard.extensionsOr given,
          Settings.standard.maxFileSize, ignoredBy (some rules)⟩ "/w") := by
    refine (mem_sources_of_linkless _ proper_checkout hdir hlinks).mpr ⟨_, rfl, ?_⟩
    rw [listed_iff_of_linkless hdir hlinks, hat]
    have hsuffix : Text.lowerCase (Path.suffix (pathOf ["w", "src", "live.ts"])) = ".ts" := by
      decide +kernel
    have hsize : (0 : Int) ≤ Settings.standard.maxFileSize := by decide
    refine ⟨⟨_, 0, rfl, rfl, hsize⟩, ?_, hlive, fun above name below hnames hbelow ↦ ?_⟩
    · rw [placeOf_checkout]
      exact hsuffix.symm ▸ hgiven
    · obtain ⟨rfl, rfl⟩ := above_pair hnames hbelow
      exact ⟨by decide, hsrc⟩
  constructor
  · intro hall
    obtain ⟨content, hregular⟩ := hall checkout entries Settings.standard [".ts"] "/w" _
      proper_checkout hdir hlinks (scan_of_ignoreRules _ _ hrules) ["src", "live.ts"]
      (hfound [".ts"] (by decide))
    rw [hat] at hregular
    exact FileTree.noConfusion (Option.some.inj hregular)
  · intro hall
    exact absurd (hall checkout entries Settings.standard [] "/w" _ proper_checkout hdir hlinks
      (scan_of_ignoreRules _ _ hrules) _ (hfound [] (by decide))) List.not_mem_nil

end FileTree

end CodeAtlas
