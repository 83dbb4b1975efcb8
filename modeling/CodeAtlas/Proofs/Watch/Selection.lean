import Mathlib
import CodeAtlas.Proofs.Files.Sources
import CodeAtlas.Proofs.Pattern.Occurrence
import CodeAtlas.Settings
import CodeAtlas.Watch.Rules

/-!
# What a scan finds and what is watched

A scan leaves out directories by their names and asks the ignore file about each directory that it
comes to. The watcher has a path, and patterns that are put to the text of it. By default, the
patterns come to five names of directories (`any_occursIn_standardPatterns`): what they ask for at the
end of a path is ruled out by the extension. A scan enters none of the five, so that what it finds
is watched (`accepts_sources`).

The other way round there are differences. A scan knows more names of directories, and it does not enter
a directory that is ignored, whatever the ignore file says about the files below. Apart from these, what is
watched is found by a scan (`mem_sources_of_accepts`).
-/

namespace CodeAtlas

/-! ## The default patterns -/

namespace Settings

/-- The directories in which nothing is watched by default. -/
def unwatchedDirectories : List String := ["node_modules", ".git", "build", "dist", "logs"]

/-- The endings of the files that are not watched by default. -/
def unwatchedEndings : List String := [".log", ".tmp", ".temp"]

open Pattern in
/-- What the default patterns stand for. -/
def standardPatterns : List Regex :=
  unwatchedDirectories.map (Regex.segment ·.toList) ++ unwatchedEndings.map (Regex.ending ·.toList)

set_option maxRecDepth 4000 in
theorem readPatterns_standard :
    WatchRules.readPatterns standard.watchIgnorePatternList = .ok standardPatterns := by
  have hitems : standard.watchIgnorePatternList = ["(^|/)node_modules(/|$)", "(^|/)\\.git(/|$)",
      "(^|/)build(/|$)", "(^|/)dist(/|$)", "(^|/)logs(/|$)", "\\.log$", "\\.tmp$", "\\.temp$"] := by
    decide
  rw [WatchRules.readPatterns, hitems]
  cbv

/-- Is the name that of a source, by its extension? -/
def IsSourceName (name : String) : Prop :=
  Text.lowerCase (String.ofList (Path.suffixList name.toList)) ∈ standard.sourceExtensionList

instance (name : String) : Decidable (IsSourceName name) := inferInstanceAs (Decidable (_ ∈ _))

variable {name w : String} {names : List String}

/-- A source does not end in anything that starts with a point and is no extension of sources. -/
theorem IsSourceName.not_suffix (h : IsSourceName name) {ending : List Char} (hpoint : '.' ∉ ending)
    (hext : Text.lowerCase (String.ofList ('.' :: ending)) ∉ standard.sourceExtensionList) :
    ¬ '.' :: ending <:+ name.toList := by
  intro hsuffix
  rw [IsSourceName] at h
  rcases Path.suffixList_of_suffix hpoint hsuffix with hnone | hsome
  · rw [hnone] at h
    exact absurd h (by decide)
  · rw [hsome] at h
    exact hext h

theorem IsSourceName.not_occursIn_ending (h : IsSourceName name) (hw : w ∈ unwatchedEndings) :
    ¬ (Pattern.Regex.ending w.toList).occursIn name = true := by
  have hpoint : ∀ w ∈ unwatchedEndings, ∀ line ∈ [[], ['\n']],
      w.toList ++ line = '.' :: (w.toList.tail ++ line) ∧ '.' ∉ w.toList.tail ++ line ∧
        Text.lowerCase (String.ofList ('.' :: (w.toList.tail ++ line)))
          ∉ standard.sourceExtensionList := by
    decide
  have hnot (line : List Char) (hline : line ∈ [[], ['\n']]) :
      ¬ w.toList ++ line <:+ name.toList := by
    obtain ⟨hcons, hpoint, hext⟩ := hpoint w hw line hline
    rw [hcons]
    exact h.not_suffix hpoint hext
  rw [Pattern.Regex.occursIn_ending, not_or]
  have hplain := hnot [] List.mem_cons_self
  rw [List.append_nil] at hplain
  exact ⟨hplain, hnot ['\n'] (by decide)⟩

/-- A source is none of the directories, with or without a line feed. -/
theorem IsSourceName.ne (h : IsSourceName name) (hw : w ∈ unwatchedDirectories) :
    name ≠ w ∧ name ≠ w ++ "\n" := by
  have hnot : ∀ w ∈ unwatchedDirectories, ¬ IsSourceName w ∧ ¬ IsSourceName (w ++ "\n") := by
    decide
  exact ⟨fun heq ↦ (hnot w hw).1 (heq ▸ h), fun heq ↦ (hnot w hw).2 (heq ▸ h)⟩

/-- **The default patterns** leave out a source if they leave out a directory above it by its name. -/
theorem any_occursIn_standardPatterns (hslash : ∀ name ∈ names, '/' ∉ name.toList)
    (hne : names ≠ []) (hsource : IsSourceName (names.getLast hne)) :
    (standardPatterns.any fun r ↦ r.occursIn (String.intercalate "/" names)) = true
      ↔ ∃ name ∈ names.dropLast, name ∈ unwatchedDirectories := by
  have hsegment (w : String) (hw : w ∈ unwatchedDirectories) :
      (Pattern.Regex.segment w.toList).occursIn (String.intercalate "/" names) = true
        ↔ w ∈ names.dropLast := by
    have hslashless : ∀ w ∈ unwatchedDirectories, '/' ∉ w.toList := by decide
    obtain ⟨hlast, hline⟩ := hsource.ne hw
    rw [Pattern.Regex.occursIn_segment_intercalate (hslashless w hw) hslash hne,
      or_iff_left hline]
    conv_lhs => rw [← List.dropLast_append_getLast hne]
    rw [List.mem_append, List.mem_singleton, or_iff_left hlast.symm]
  have hending (w : String) (hw : w ∈ unwatchedEndings) :
      ¬ (Pattern.Regex.ending w.toList).occursIn (String.intercalate "/" names) = true := by
    have hslashless : ∀ w ∈ unwatchedEndings, '/' ∉ w.toList := by decide
    rw [Pattern.Regex.occursIn_ending_intercalate (hslashless w hw) hne]
    exact hsource.not_occursIn_ending hw
  rw [standardPatterns, List.any_append, Bool.or_eq_true, List.any_map, List.any_map,
    List.any_eq_true, List.any_eq_true]
  constructor
  · rintro (⟨w, hw, hoccurs⟩ | ⟨w, hw, hoccurs⟩)
    · exact ⟨w, (hsegment w hw).mp hoccurs, hw⟩
    · exact absurd hoccurs (hending w hw)
  · rintro ⟨w, hname, hw⟩
    exact Or.inl ⟨w, hw, (hsegment w hw).mpr hname⟩

end Settings

/-! ## What is accepted -/

namespace WatchRules

open FileTree Scan

variable {files : FileTree} {root path : String} {names place : List String}
  {ignored : Option Pattern.IgnoreRules} {ignores : String → Bool}
  {entries : List (String × FileTree)}

/-- The rules that hold for a directory by default. -/
def standard (files : FileTree) (root : String) (ignores : String → Bool) : WatchRules :=
  of files root Settings.standard.sourceExtensionList Settings.standardPatterns ignores

/-- What is ignored by default is what the ignore file says. -/
theorem make_standard (hrules : files.ignoreRules? (files.realPath root) = .ok ignored) :
    make files root Settings.standard.sourceExtensionList Settings.standard.watchIgnorePatternList
      = .ok (standard files root (ignoredBy ignored)) := by
  rw [make, Settings.readPatterns_standard]
  dsimp only [bind, Except.bind]
  rw [hrules]
  rfl

theorem extensions_standard :
    (standard files root ignores).extensions = Settings.standard.sourceExtensionList := by
  have hlower : Settings.standard.sourceExtensionList.map Text.lowerCase
      = Settings.standard.sourceExtensionList := by
    decide
  rw [standard, of, hlower]

theorem isSourceName_iff (hbelow : Path.below? root path = some names) (hne : names ≠ []) :
    hasExtension Settings.standard.sourceExtensionList path = true
      ↔ Settings.IsSourceName (names.getLast hne) := by
  rw [hasExtension, List.contains_iff_mem, Path.suffix_of_below? hbelow hne, Settings.IsSourceName]

/-- **What is watched by default**: the sources that are not ignored and have none of five directories
above them. -/
theorem accepts_standard (hbelow : Path.below? (files.realPath root) path = some names)
    (hne : names ≠ []) :
    (standard files root ignores).accepts path = true
      ↔ hasExtension Settings.standard.sourceExtensionList path = true ∧
        (∀ name ∈ names.dropLast, name ∉ Settings.unwatchedDirectories) ∧
        ignores (String.intercalate "/" names) = false := by
  have hrelative : relative? (files.realPath root) path = some (String.intercalate "/" names) := by
    rw [relative?, hbelow, Option.map_some, if_neg (by simpa using hne)]
  have haccepts : (standard files root ignores).accepts path
      = (hasExtension Settings.standard.sourceExtensionList path
        && (!(Settings.standardPatterns.any fun r ↦ r.occursIn (String.intercalate "/" names))
          && !ignores (String.intercalate "/" names))) := by
    rw [accepts, extensions_standard]
    dsimp only [standard, of]
    rw [hrelative]
  rw [haccepts, Bool.and_eq_true, Bool.and_eq_true, Bool.not_eq_true', Bool.not_eq_true']
  refine and_congr_right fun hext ↦ and_congr_left' ?_
  rw [← Bool.not_eq_true, Settings.any_occursIn_standardPatterns
    (Path.slashless_of_below? hbelow) hne ((isSourceName_iff hbelow hne).mp hext)]
  simp only [not_exists, not_and]

/-- **What a scan finds is watched**: the default patterns leave out a source if and only if one of five
directories is above it, and a scan enters none of these. What is ignored may be anything, as long as
it is the same for both; it is what the ignore file says. -/
theorem accepts_sources (files : FileTree) (root : String) :
    ∃ patterns, readPatterns Settings.standard.watchIgnorePatternList = .ok patterns ∧
      (∀ ignored, files.ignoreRules? (files.realPath root) = .ok ignored →
        make files root Settings.standard.sourceExtensionList
            Settings.standard.watchIgnorePatternList
          = .ok (of files root Settings.standard.sourceExtensionList patterns
            (ignoredBy ignored)) ∧
        files.scan Settings.standard.sourceExtensionList Settings.standard.maxFileSize root
          = .ok (files.scanBy ⟨Settings.standard.sourceExtensionList,
            Settings.standard.maxFileSize, ignoredBy ignored⟩ root)) ∧
      (∀ path names, Path.below? (files.realPath root) path = some names → names ≠ [] →
        hasExtension Settings.standard.sourceExtensionList path = true →
        ((patterns.any fun r ↦ r.occursIn (String.intercalate "/" names)) = true
          ↔ ∃ name ∈ names.dropLast, name ∈ ["node_modules", ".git", "build", "dist", "logs"])) ∧
      (files.Proper → ∀ entries, files.at? (files.placeOf root) = some (directory entries) →
        (directory entries).linkCount = 0 →
        ∀ ignores : String → Bool, ∀ path ∈ sources (files.scanBy
            ⟨Settings.standard.sourceExtensionList, Settings.standard.maxFileSize, ignores⟩ root),
          (of files root Settings.standard.sourceExtensionList patterns ignores).accepts path
            = true) := by
  refine ⟨_, Settings.readPatterns_standard, fun ignored hrules ↦ ?_, ?_, ?_⟩
  · exact ⟨make_standard hrules, scan_of_ignoreRules _ _ hrules⟩
  · intro path names hbelow hne hext
    exact Settings.any_occursIn_standardPatterns (Path.slashless_of_below? hbelow) hne
      ((isSourceName_iff hbelow hne).mp hext)
  · intro hproper entries hdir hlinks ignores path hpath
    obtain ⟨names, rfl, hlisted⟩ := (mem_sources_of_linkless _ hproper hdir hlinks).mp hpath
    have hbelow := Path.below?_pathOf (hlisted.isName hproper)
    refine (accepts_standard hbelow (hlisted.ne_nil hdir)).mpr
      ⟨List.contains_iff_mem.mpr hlisted.extension, fun name hname hunwatched ↦ ?_, hlisted.kept⟩
    have hskipped : ∀ name ∈ Settings.unwatchedDirectories, name ∈ skippedDirectories := by decide
    obtain ⟨above, below, hnames, hbelow⟩ := mem_dropLast_iff.mp hname
    exact (hlisted.entered above name below hnames hbelow).1 (hskipped name hunwatched)

theorem realPath_checkout : checkout.realPath "/w" = "/w" := by
  rw [realPath, placeOf_checkout]
  decide

theorem accepts_sources_checkout : ∃ rules findings,
    make checkout "/w" Settings.standard.sourceExtensionList
      Settings.standard.watchIgnorePatternList = .ok rules ∧
    checkout.scan Settings.standard.sourceExtensionList Settings.standard.maxFileSize "/w"
      = .ok findings ∧
    (rules.patterns.any fun r ↦ r.occursIn "rebuild/my.git/logs.ts") = false ∧
    (rules.patterns.any fun r ↦ r.occursIn "packages/build/out.ts") = true ∧
    ∀ path ∈ sources findings, rules.accepts path = true := by
  obtain ⟨ignoreRules, hrules, -⟩ := ignoreRules?_checkout
  obtain ⟨entries, hdir, hlinks, -⟩ := at?_checkout
  obtain ⟨patterns, -, hmake, hpatterns, haccepts⟩ := accepts_sources checkout "/w"
  obtain ⟨hmake, hscan⟩ := hmake _ hrules
  rw [realPath_checkout] at hpatterns
  have hbelow : ∀ names ∈ [["rebuild", "my.git", "logs.ts"], ["packages", "build", "out.ts"]],
      Path.below? "/w" ("/w/" ++ String.intercalate "/" names) = some names ∧
        hasExtension Settings.standard.sourceExtensionList
          ("/w/" ++ String.intercalate "/" names) = true := by
    decide
  obtain ⟨hlogs, hlogsext⟩ := hbelow ["rebuild", "my.git", "logs.ts"] (by decide)
  obtain ⟨hout, houtext⟩ := hbelow ["packages", "build", "out.ts"] (by decide)
  refine ⟨_, _, hmake, hscan, Bool.eq_false_iff.mpr fun hany ↦ ?_, ?_,
    haccepts proper_checkout entries hdir hlinks _⟩
  · exact absurd ((hpatterns _ _ hlogs (by decide) hlogsext).mp hany) (by decide)
  · exact (hpatterns _ _ hout (by decide) houtext).mpr (by decide)

/-- **What is watched is found by a scan**, unless there is a directory above it that is skipped and
not one of those the watcher knows, or one that is ignored itself. What is ignored may be anything, as
long as it is the same for both; it is what the ignore file says. -/
theorem mem_sources_of_accepts (hproper : files.Proper)
    (hdir : files.at? (files.placeOf root) = some (directory entries))
    (hlinks : (directory entries).linkCount = 0) :
    ∃ patterns, readPatterns Settings.standard.watchIgnorePatternList = .ok patterns ∧
      (∀ ignored, files.ignoreRules? (files.realPath root) = .ok ignored →
        make files root Settings.standard.sourceExtensionList
            Settings.standard.watchIgnorePatternList
          = .ok (of files root Settings.standard.sourceExtensionList patterns
            (ignoredBy ignored)) ∧
        files.scan Settings.standard.sourceExtensionList Settings.standard.maxFileSize root
          = .ok (files.scanBy ⟨Settings.standard.sourceExtensionList,
            Settings.standard.maxFileSize, ignoredBy ignored⟩ root)) ∧
      ∀ (ignores : String → Bool) (names : List String) (content : ByteArray),
        (directory entries).at? names = some (file content) →
        content.size ≤ Settings.standard.maxFileSize →
        (∀ above name below, names = above ++ name :: below → below ≠ [] →
          name ∉ ["coverage", ".next", ".turbo", ".cache", ".idea", ".vscode"] ∧
            ignores (String.intercalate "/" (above ++ [name]) ++ "/") = false) →
        (of files root Settings.standard.sourceExtensionList patterns ignores).accepts
          (pathOf (files.placeOf root ++ names)) = true →
        pathOf (files.placeOf root ++ names) ∈ sources (files.scanBy
          ⟨Settings.standard.sourceExtensionList, Settings.standard.maxFileSize, ignores⟩ root) := by
  refine ⟨_, Settings.readPatterns_standard, fun ignored hrules ↦ ?_, fun ignores ↦ ?_⟩
  · exact ⟨make_standard hrules, scan_of_ignoreRules _ _ hrules⟩
  intro names content hfile hsize habove haccepts
  have hat : files.at? (files.placeOf root ++ names) = some (file content) := by
    rw [at?_below hdir, hfile]
  have hne : names ≠ [] := by
    rintro rfl
    exact FileTree.noConfusion (Option.some.inj hfile)
  have hbelow := Path.below?_pathOf (hproper.at? hat).2
  obtain ⟨hext, hwatched, hkept⟩ := (accepts_standard hbelow hne).mp haccepts
  rw [hasExtension, List.contains_iff_mem] at hext
  refine (mem_sources_of_linkless _ hproper hdir hlinks).mpr ⟨names, rfl, ?_⟩
  refine (listed_iff_of_linkless hdir hlinks).mpr
    ⟨⟨_, content.size, hfile, rfl, hsize⟩, hext, hkept, fun above name below hnames hbelow ↦ ?_⟩
  have hskipped : ∀ name ∈ skippedDirectories, name ∈ Settings.unwatchedDirectories ∨
      name ∈ ["coverage", ".next", ".turbo", ".cache", ".idea", ".vscode"] := by
    decide
  obtain ⟨hname, hentered⟩ := habove above name below hnames hbelow
  refine ⟨fun hmem ↦ ?_, hentered⟩
  have hdropLast : name ∈ names.dropLast := mem_dropLast_iff.mpr ⟨above, below, hnames, hbelow⟩
  exact (hskipped name hmem).elim (hwatched name hdropLast) hname

theorem mem_sources_checkout : ∃ rules findings,
    make checkout "/w" Settings.standard.sourceExtensionList
      Settings.standard.watchIgnorePatternList = .ok rules ∧
    checkout.scan Settings.standard.sourceExtensionList Settings.standard.maxFileSize "/w"
      = .ok findings ∧
    rules.accepts "/w/src/App.TS" = true ∧ "/w/src/App.TS" ∈ sources findings := by
  obtain ⟨ignoreRules, hrules, hsrc, happ, -⟩ := ignoreRules?_checkout
  obtain ⟨entries, hdir, hlinks, hat⟩ := at?_checkout
  obtain ⟨patterns, hpatterns, hmake, hmem⟩ := mem_sources_of_accepts proper_checkout hdir hlinks
  obtain ⟨hmake, hscan⟩ := hmake _ hrules
  have hpath : pathOf (checkout.placeOf "/w" ++ ["src", "App.TS"]) = "/w/src/App.TS" := by
    rw [placeOf_checkout]
    decide
  have hbelow : Path.below? (checkout.realPath "/w") "/w/src/App.TS" = some ["src", "App.TS"] := by
    rw [realPath_checkout]
    decide
  have haccepts : (standard checkout "/w" (ignoredBy (some ignoreRules))).accepts "/w/src/App.TS"
      = true :=
    (accepts_standard hbelow (by decide)).mpr ⟨by decide, by decide, happ⟩
  obtain rfl := Except.ok.inj (hpatterns.symm.trans Settings.readPatterns_standard)
  refine ⟨_, _, hmake, hscan, haccepts, ?_⟩
  have hfound := hmem (ignoredBy (some ignoreRules)) ["src", "App.TS"] .empty (hat _) (by decide)
    (fun above name below h hbelow ↦ ?_)
  · rw [hpath] at hfound
    exact hfound haccepts
  · obtain ⟨rfl, rfl⟩ := above_pair h hbelow
    exact ⟨by decide, hsrc⟩

/-- A directory with a file in a directory that is skipped, and with one that is not ignored in a
directory that is. -/
def withReport : FileTree :=
  .directory [("w", .directory [
    (".gitignore", .file "gen/\n!gen/keep.ts\n".toUTF8),
    ("coverage", .directory [("report.ts", .file .empty)]),
    ("gen", .directory [("keep.ts", .file .empty)])])]

theorem proper_withReport : withReport.Proper := by
  simp only [withReport, proper_directory, List.forall_mem_cons, List.not_mem_nil, false_implies,
    implies_true, and_true, Proper.file]
  decide

theorem placeOf_withReport : withReport.placeOf "/w" = ["w"] := by
  rw [placeOf_of_linkless rfl]
  decide

theorem ignoreRules?_withReport : ∃ rules, withReport.ignoreRules? "/w" = .ok (some rules) ∧
    rules.ignores "coverage/report.ts" = false ∧ rules.ignores "gen/keep.ts" = false ∧
    rules.ignores "gen/" = true := by
  have hpath : plainPlace (Path.join "/w" ".gitignore") = ["w", ".gitignore"] := by decide
  have hread : withReport.read (Path.join "/w" ".gitignore")
      = .ok "gen/\n!gen/keep.ts\n".toUTF8 := by
    rw [FileTree.read, if_neg (by decide), placeOf_of_linkless rfl, hpath]
    rfl
  obtain ⟨rules, hrules, htest⟩ := exists_ignoreRules?
    (fun rules ↦ !rules.ignores "coverage/report.ts" && !rules.ignores "gen/keep.ts"
      && rules.ignores "gen/") hread (by decide +kernel)
  exact ⟨rules, hrules, by simpa [and_assoc] using htest⟩

/-- Both files are watched, and neither is found by a scan. -/
theorem accepts_withReport : ∃ rules findings,
    make withReport "/w" Settings.standard.sourceExtensionList
      Settings.standard.watchIgnorePatternList = .ok rules ∧
    withReport.scan Settings.standard.sourceExtensionList Settings.standard.maxFileSize "/w"
      = .ok findings ∧
    ∀ names ∈ [["coverage", "report.ts"], ["gen", "keep.ts"]],
      rules.accepts (pathOf (["w"] ++ names)) = true ∧
        pathOf (["w"] ++ names) ∉ sources findings := by
  obtain ⟨ignoreRules, hrules, hreport, hkeep, hgen⟩ := ignoreRules?_withReport
  have hroot : withReport.realPath "/w" = "/w" := by
    rw [realPath, placeOf_withReport]
    decide
  rw [← hroot] at hrules
  refine ⟨_, _, make_standard hrules, scan_of_ignoreRules _ _ hrules, ?_⟩
  have hbelow : ∀ names ∈ [["coverage", "report.ts"], ["gen", "keep.ts"]],
      (∀ name ∈ ["w"] ++ names, IsName name) ∧ names ≠ [] ∧
        hasExtension Settings.standard.sourceExtensionList (pathOf (["w"] ++ names)) = true ∧
        ∀ name ∈ names.dropLast, name ∉ Settings.unwatchedDirectories := by
    decide
  have hkept : ∀ names ∈ [["coverage", "report.ts"], ["gen", "keep.ts"]],
      ignoredBy (some ignoreRules) (String.intercalate "/" names) = false := by
    simp [ignoredBy, hreport, hkeep]
  have hunlisted : ∀ names ∈ [["coverage", "report.ts"], ["gen", "keep.ts"]],
      ¬ Listed ⟨Settings.standard.sourceExtensionList, Settings.standard.maxFileSize,
        ignoredBy (some ignoreRules)⟩ withReport ["w"] names := by
    refine List.forall_mem_cons.mpr ⟨fun h ↦ ?_, List.forall_mem_singleton.mpr fun h ↦ ?_⟩
    · exact (h.entered [] "coverage" ["report.ts"] rfl (List.cons_ne_nil _ _)).1 (by decide)
    · have hentered := (h.entered [] "gen" ["keep.ts"] rfl (List.cons_ne_nil _ _)).2
      exact absurd (hgen.symm.trans hentered) (by decide)
  intro names hnames
  obtain ⟨hall, hne, hext, hwatched⟩ := hbelow names hnames
  have hrelative : Path.below? (withReport.realPath "/w") (pathOf (["w"] ++ names)) = some names := by
    rw [realPath, placeOf_withReport]
    exact Path.below?_pathOf hall
  refine ⟨(accepts_standard hrelative hne).mpr ⟨hext, hwatched, hkept names hnames⟩, fun hfound ↦ ?_⟩
  obtain ⟨names', hpath, hlisted⟩ := (mem_sources_of_linkless _ proper_withReport
    (by rw [placeOf_withReport]; rfl) rfl).mp hfound
  rw [placeOf_withReport] at hpath hlisted
  rw [pathOf_inj hall (hlisted.isName proper_withReport), List.append_right_inj] at hpath
  exact hunlisted names hnames (hpath ▸ hlisted)

/-- Not everything that is watched is found by a scan. -/
theorem not_forall_mem_sources : ¬ ∀ (files : FileTree) (root : String)
    (entries : List (String × FileTree)) (rules : WatchRules) (findings : List Finding)
    (names : List String) (content : ByteArray), files.Proper →
    files.at? (files.placeOf root) = some (directory entries) → (directory entries).linkCount = 0 →
    make files root Settings.standard.sourceExtensionList
      Settings.standard.watchIgnorePatternList = .ok rules →
    files.scan Settings.standard.sourceExtensionList Settings.standard.maxFileSize root
      = .ok findings →
    (directory entries).at? names = some (file content) →
    content.size ≤ Settings.standard.maxFileSize →
    rules.accepts (pathOf (files.placeOf root ++ names)) = true →
    pathOf (files.placeOf root ++ names) ∈ sources findings := by
  intro hall
  obtain ⟨rules, findings, hmake, hscan, hboth⟩ := accepts_withReport
  obtain ⟨haccepts, hunfound⟩ := hboth ["coverage", "report.ts"] (by decide)
  have hfound := hall withReport "/w" _ rules findings ["coverage", "report.ts"] .empty
    proper_withReport (by rw [placeOf_withReport]; rfl) rfl hmake hscan rfl (by decide)
  rw [placeOf_withReport] at hfound
  exact hunfound (hfound haccepts)

end WatchRules

end CodeAtlas
