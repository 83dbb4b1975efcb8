import CodeAtlas.Proofs.Files.Sources

/-!
# Scanning through links

The rules are put to the place of a link, but the path that is returned is the one that the link
leads to, and the rules are not put to that one. It may have been returned before, lie outside the
directory that is scanned, have any suffix, and lead through directories that are skipped.

Nothing else goes wrong. A scan returns distinct paths that a scan may return, `Admissible` ones, if
every link that it lists leads to such a path and no two listed entries, one of them a link, have the
same real path; and only then (`admissible_iff`).
-/

namespace CodeAtlas.FileTree

open Scan

/-- May the path be returned by a scan at a place? It leads below the place, through no directory that
is skipped, to a name of a known suffix. -/
structure Admissible (extensions place : List String) (path : String) : Prop where
  below : ∃ names, names ≠ [] ∧ (∀ name ∈ names, IsName name) ∧ path = pathOf (place ++ names) ∧
    ∀ name ∈ names.dropLast, name ∉ skippedDirectories
  extension : Text.lowerCase (Path.suffix path) ∈ extensions

variable {root : FileTree} {path : String} {extensions : List String} {maxSize : Int}
  {entries : List (String × FileTree)}

/-- Is there a link at the place? -/
def IsLink (root : FileTree) (place : List String) : Prop :=
  ∃ target, root.at? place = some (link target)

section

variable {rules : ScanRules} {place names : List String}

/-- An entry that is no link is returned as it should be. -/
theorem admissible_of_plain (hroot : root.Proper) (hdir : root.at? place = some (directory entries))
    (h : Listed rules root place names) (hplain : ¬ root.IsLink (place ++ names)) :
    Admissible rules.extensions place (root.realPath (pathOf (place ++ names))) := by
  rw [h.realPath_eq hroot fun target hlink ↦ hplain ⟨target, hlink⟩]
  refine ⟨⟨names, h.ne_nil hdir, ?_, rfl, ?_⟩, h.extension⟩
  · exact fun name hname ↦ h.isName hroot name (List.mem_append_right _ hname)
  · intro name hname
    obtain ⟨above, below, hnames, hbelow⟩ := mem_dropLast_iff.mp hname
    exact (h.entered above name below hnames hbelow).1

end

/-- **A scan through links** returns distinct and admissible paths if and only if each link that it
lists leads to an admissible path that no other entry stands for. What is ignored may be anything; in
a scan it is what the ignore file says. -/
theorem admissible_iff (hroot : root.Proper)
    (hdir : root.at? (root.placeOf path) = some (directory entries)) :
    (∀ ignored, root.ignoreRules? (root.realPath path) = .ok ignored →
      root.scan extensions maxSize path
        = .ok (root.scanBy ⟨extensions, maxSize, ignoredBy ignored⟩ path)) ∧
    ∀ ignores : String → Bool, ∃ places : List (List String),
      (∀ names, names ∈ places ↔
        Listed ⟨extensions, maxSize, ignores⟩ root (root.placeOf path) names) ∧
      sources (root.scanBy ⟨extensions, maxSize, ignores⟩ path)
        = places.map (fun names ↦ root.realPath (pathOf (root.placeOf path ++ names))) ∧
      ((sources (root.scanBy ⟨extensions, maxSize, ignores⟩ path)).Nodup ∧
          (∀ found ∈ sources (root.scanBy ⟨extensions, maxSize, ignores⟩ path),
            Admissible extensions (root.placeOf path) found) ↔
        ∀ names ∈ places, root.IsLink (root.placeOf path ++ names) →
          Admissible extensions (root.placeOf path)
            (root.realPath (pathOf (root.placeOf path ++ names))) ∧
          ∀ names' ∈ places, root.realPath (pathOf (root.placeOf path ++ names'))
            = root.realPath (pathOf (root.placeOf path ++ names)) → names' = names) := by
  refine ⟨fun ignored hrules ↦ scan_of_ignoreRules _ _ hrules, fun ignores ↦ ?_⟩
  obtain ⟨places, hsources, hpairwise, hplaces⟩ :=
    exists_places ⟨extensions, maxSize, ignores⟩ hroot hdir
  rw [scanBy_eq hroot hdir, hsources, List.forall_mem_map]
  refine ⟨places, hplaces, rfl, ?_⟩
  constructor
  · rintro ⟨hnodup, hall⟩ names hnames -
    refine ⟨hall names hnames, fun names' hnames' heq ↦ ?_⟩
    exact List.inj_on_of_nodup_map hnodup hnames' hnames heq
  · intro hlinks
    constructor
    · refine (Precedes.nodup hpairwise).map_on fun names hnames names' hnames' heq ↦ ?_
      by_cases hlink : root.IsLink (root.placeOf path ++ names)
      · exact ((hlinks names hnames hlink).2 names' hnames' heq.symm).symm
      · by_cases hlink' : root.IsLink (root.placeOf path ++ names')
        · exact (hlinks names' hnames' hlink').2 names hnames heq
        · -- Neither is a link, so the real paths are the paths themselves.
          have h := (hplaces names).mp hnames
          have h' := (hplaces names').mp hnames'
          rw [h.realPath_eq hroot fun target heq ↦ hlink ⟨target, heq⟩,
            h'.realPath_eq hroot fun target heq ↦ hlink' ⟨target, heq⟩] at heq
          exact (h.pathOf_inj h' hroot).mp heq
    · intro names hnames
      by_cases hlink : root.IsLink (root.placeOf path ++ names)
      · exact (hlinks names hnames hlink).1
      · exact admissible_of_plain hroot hdir ((hplaces names).mp hnames) hlink

/-! ## A directory with links

There is a link to a file that is listed itself, and one each to a file in a directory that is
skipped, to one with another suffix, and to one outside. -/

def linkedEntries : List (String × FileTree) :=
  [("alias.ts", .link "app.ts"), ("app.ts", .file .empty),
    ("dep.ts", .link "node_modules/dep.ts"),
    ("guide.md", .file .empty), ("guide.ts", .link "guide.md"),
    ("node_modules", .directory [("dep.ts", .file .empty)]),
    ("shared.ts", .link "../lib/shared.ts")]

def linked : FileTree :=
  .directory [("lib", .directory [("shared.ts", .file .empty)]), ("src", .directory linkedEntries)]

theorem proper_linked : linked.Proper := by
  simp only [linked, linkedEntries, proper_directory, List.forall_mem_cons, List.not_mem_nil,
    false_implies, implies_true, and_true, Proper.file, Proper.link]
  decide

/-- Where the links lead, and what is not there. -/
theorem placeOf_linked :
    linked.placeOf (pathOf ["src", "alias.ts"]) = ["src", "app.ts"] ∧
    linked.placeOf (pathOf ["src", "dep.ts"]) = ["src", "node_modules", "dep.ts"] ∧
    linked.placeOf (pathOf ["src", "guide.ts"]) = ["src", "guide.md"] ∧
    linked.placeOf (pathOf ["src", "shared.ts"]) = ["lib", "shared.ts"] ∧
    linked.placeOf (pathOf ["src", ".gitignore"]) = ["src", ".gitignore"] := by
  have happ : namesOn "app.ts" = ["app.ts"] := by decide
  have hdep : namesOn "node_modules/dep.ts" = ["node_modules", "dep.ts"] := by decide
  have hguide : namesOn "guide.md" = ["guide.md"] := by decide
  have hshared : namesOn "../lib/shared.ts" = ["..", "lib", "shared.ts"] := by decide
  have hfollow : ∀ names, (∀ name ∈ names, IsName name) →
      linked.placeOf (pathOf names) = (linked.follow 4 [] [] names).reverse := by
    intro names hnames
    rw [placeOf, namesOn_pathOf hnames]
    rfl
  rw [hfollow _ (by decide), hfollow _ (by decide), hfollow _ (by decide),
    hfollow _ (by decide), hfollow _ (by decide)]
  simp [follow, linked, linkedEntries, at?, Props.get?, isAbsolute, happ, hdep, hguide, hshared]

theorem placeOf_src_linked : linked.placeOf "/src" = ["src"] := by
  have hpath : "/src" = pathOf ["src"] := by decide
  rw [hpath]
  exact placeOf_pathOf proper_linked rfl fun _ ↦ FileTree.noConfusion

theorem at?_src_linked :
    linked.at? (linked.placeOf "/src") = some (directory linkedEntries) := by
  rw [placeOf_src_linked]
  rfl

theorem ignoreRules?_linked : linked.ignoreRules? (linked.realPath "/src") = .ok none := by
  have hpath : Path.join (pathOf ["src"]) ".gitignore" = pathOf ["src", ".gitignore"] := by
    decide
  have hread : linked.read (pathOf ["src", ".gitignore"]) = .error .missing := by
    obtain ⟨-, -, -, -, hignore⟩ := placeOf_linked
    rw [read, if_neg (by decide), hignore]
    rfl
  rw [realPath, placeOf_src_linked, ignoreRules?, hpath, hread]

/-- What the scan lists: one file, and all links. -/
def linkedNames : List String := ["alias.ts", "app.ts", "dep.ts", "guide.ts", "shared.ts"]

theorem entrySize?_linked : ∀ name ∈ linkedNames, linked.entrySize? ["src", name] = some 0 := by
  obtain ⟨halias, hdep, hguide, hshared, -⟩ := placeOf_linked
  have hlink : ∀ names place target, linked.at? names = some (link target) →
      (pathOf names).utf8ByteSize ≤ maxPathLength → linked.placeOf (pathOf names) = place →
      find place linked = .ok (file .empty) → linked.entrySize? names = some 0 := by
    intro names place target hlink hlength hplace hfind
    rw [entrySize?, hlink]
    dsimp only
    rw [sizeAt?, if_neg (Nat.not_lt.mpr hlength), hplace, hfind]
    rfl
  simp only [linkedNames, List.forall_mem_cons, List.not_mem_nil, false_implies, implies_true,
    and_true]
  exact ⟨hlink _ _ _ rfl (by decide) halias rfl, rfl,
    hlink _ _ _ rfl (by decide) hdep rfl, hlink _ _ _ rfl (by decide) hguide rfl,
    hlink _ _ _ rfl (by decide) hshared rfl⟩

theorem listed_linked : ∀ name ∈ linkedNames,
    Listed ⟨[".ts"], 100, ignoredBy none⟩ linked ["src"] [name] := by
  intro name hname
  refine ⟨⟨0, entrySize?_linked name hname, by decide⟩, ?_, rfl, ?_⟩
  · revert name
    decide
  · intro above name' below hnames hbelow
    have hlength := congrArg List.length hnames
    have hpos := List.length_pos_iff.mpr hbelow
    simp only [List.length_append, List.length_cons, List.length_nil] at hlength
    omega

theorem realPath_app_linked :
    linked.realPath (pathOf ["src", "app.ts"]) = linked.realPath (pathOf ["src", "alias.ts"]) := by
  have happ : linked.realPath (pathOf ["src", "app.ts"]) = pathOf ["src", "app.ts"] :=
    realPath_pathOf proper_linked rfl fun _ ↦ FileTree.noConfusion
  rw [happ, realPath, placeOf_linked.1]

/-- The condition fails where a link stands beside the file that it leads to. -/
theorem admissible_iff_linked : ∃ (findings : List Finding) (places : List (List String)),
    linked.scan [".ts"] 100 "/src" = .ok findings ∧ ["alias.ts"] ∈ places ∧ ["app.ts"] ∈ places ∧
    ¬ ((sources findings).Nodup ∧
      ∀ found ∈ sources findings, Admissible [".ts"] (linked.placeOf "/src") found) := by
  obtain ⟨hscan, hall⟩ := admissible_iff proper_linked at?_src_linked
  obtain ⟨places, hplaces, -, hiff⟩ := hall (ignoredBy none)
  have halias : ["alias.ts"] ∈ places := by
    rw [hplaces, placeOf_src_linked]
    exact listed_linked _ (by decide)
  have happ : ["app.ts"] ∈ places := by
    rw [hplaces, placeOf_src_linked]
    exact listed_linked _ (by decide)
  refine ⟨_, places, hscan _ ignoreRules?_linked, halias, happ, fun hsafe ↦ ?_⟩
  have hlone := hiff.mp hsafe ["alias.ts"] halias
  rw [placeOf_src_linked] at hlone
  exact absurd ((hlone ⟨_, rfl⟩).2 ["app.ts"] happ realPath_app_linked) (by decide)

/-- Some links lead to what is not to be returned. -/
theorem not_admissible_linked : ∀ name ∈ ["dep.ts", "guide.ts", "shared.ts"],
    ¬ Admissible [".ts"] ["src"] (linked.realPath (pathOf ["src", name])) := by
  have hplace : ∀ {place path}, (∀ name ∈ place, IsName name) → path = pathOf place →
      Admissible [".ts"] ["src"] path →
      ∃ names, place = "src" :: names ∧ ∀ name ∈ names.dropLast, name ∉ skippedDirectories := by
    rintro place _ hplace rfl ⟨⟨names, -, hnames, hpath, hskipped⟩, -⟩
    have hall : ∀ name ∈ ["src"] ++ names, IsName name :=
      List.forall_mem_append.mpr ⟨by decide, hnames⟩
    exact ⟨names, (pathOf_inj hplace hall).mp hpath, hskipped⟩
  obtain ⟨-, hdep, hguide, hshared, -⟩ := placeOf_linked
  simp only [List.forall_mem_cons, List.not_mem_nil, false_implies, implies_true, and_true]
  refine ⟨fun h ↦ ?_, fun h ↦ ?_, fun h ↦ ?_⟩
  · obtain ⟨names, hnames, hskipped⟩ := hplace (by decide) (congrArg pathOf hdep) h
    obtain rfl : ["node_modules", "dep.ts"] = names := (List.cons.inj hnames).2
    exact absurd (hskipped "node_modules" (by decide)) (by decide)
  · rw [realPath, hguide] at h
    exact absurd h.extension (by decide)
  · obtain ⟨names, hnames, -⟩ := hplace (by decide) (congrArg pathOf hshared) h
    exact absurd (List.cons.inj hnames).1 (by decide)

/-- A file is returned twice, and so are three that are not admissible. -/
theorem scan_linked : ∃ findings, linked.scan [".ts"] 100 "/src" = .ok findings ∧
    ¬ (sources findings).Nodup ∧ ∀ name ∈ ["dep.ts", "guide.ts", "shared.ts"],
      linked.realPath (pathOf ["src", name]) ∈ sources findings := by
  obtain ⟨places, hsources, -, hplaces⟩ :=
    exists_places ⟨[".ts"], 100, ignoredBy none⟩ proper_linked at?_src_linked
  have hmem : ∀ name ∈ linkedNames, [name] ∈ places := by
    intro name hname
    rw [hplaces, placeOf_src_linked]
    exact listed_linked name hname
  refine ⟨_, scan_of_ignoreRules _ _ ignoreRules?_linked, ?_, ?_⟩
  · rw [scanBy_eq proper_linked at?_src_linked, hsources, placeOf_src_linked]
    intro hnodup
    have hlone := List.inj_on_of_nodup_map hnodup (hmem "app.ts" (by decide))
      (hmem "alias.ts" (by decide)) realPath_app_linked
    exact absurd hlone (by decide)
  · rw [scanBy_eq proper_linked at?_src_linked, hsources, placeOf_src_linked]
    intro name hname
    have hlisted : name ∈ linkedNames := by
      revert name
      decide
    exact List.mem_map_of_mem (hmem name hlisted)

/-- A scan may return a path twice, and it may return paths that lie elsewhere, have another suffix or
lead through a directory that is skipped. -/
theorem not_forall_admissible :
    ¬ (∀ (root : FileTree) (extensions : List String) (maxSize : Int) (path : String)
        (findings : List Finding), root.Proper →
        root.scan extensions maxSize path = .ok findings → (sources findings).Nodup) ∧
    ¬ ∀ (root : FileTree) (extensions : List String) (maxSize : Int) (path : String)
        (findings : List Finding), root.Proper →
        root.scan extensions maxSize path = .ok findings →
        ∀ found ∈ sources findings, Admissible extensions (root.placeOf path) found := by
  obtain ⟨findings, hscan, htwice, hmem⟩ := scan_linked
  constructor
  · intro hall
    exact htwice (hall linked _ _ _ findings proper_linked hscan)
  · intro hall
    have hshared := hall linked _ _ _ findings proper_linked hscan _ (hmem "shared.ts" (by decide))
    rw [placeOf_src_linked] at hshared
    exact not_admissible_linked "shared.ts" (by decide) hshared

end CodeAtlas.FileTree
