import CodeAtlas.Files.Scan
import CodeAtlas.Proofs.Files.Places
import CodeAtlas.Proofs.Sorting

/-!
# The order in which a scan goes through a tree

Which places a scan comes by, and in which order, depends on the directories only: on their names and
on what the ignore file says about them. What a file holds, and where a link leads, is looked at when
its place has been come to. So the visit is split into a *walk*, which lists places, and the
judgement about each of them (`visit_eq_filterMap`).

The walk comes by every place that has only entered directories above it (`mem_walk`). A directory
has its own entries first and then what is below its subdirectories, both by name. That is an order
of places, `Precedes`, whatever the tree is, and a walk ascends in it (`pairwise_walk`).
-/

namespace CodeAtlas

/-! ## The order of places -/

/-- The order of places in which the entries of a directory come before what is below them, and names
decide otherwise. -/
inductive Precedes : List String → List String → Prop
  | entries {a b : String} (h : a < b) : Precedes [a] [b]
  | entry_below (a b : String) {y : List String} (hy : y ≠ []) : Precedes [a] (b :: y)
  | apart {a b : String} {x y : List String} (h : a < b) (hx : x ≠ []) (hy : y ≠ []) :
      Precedes (a :: x) (b :: y)
  | inside (a : String) {x y : List String} (h : Precedes x y) : Precedes (a :: x) (a :: y)

namespace Precedes

variable {x y : List String}

theorem ne_nil (h : Precedes x y) : x ≠ [] ∧ y ≠ [] := by
  cases h with
  | _ => exact ⟨List.cons_ne_nil _ _, List.cons_ne_nil _ _⟩

theorem asymm (h : Precedes x y) : ¬ Precedes y x := by
  induction h with
  | entries hlt =>
    intro h
    cases h with
    | entries hgt => exact lt_asymm hlt hgt
    | entry_below _ _ hne => exact hne rfl
    | apart _ hne _ => exact hne rfl
    | inside _ h => exact h.ne_nil.1 rfl
  | entry_below a b hy =>
    intro h
    cases h with
    | entries _ => exact hy rfl
    | entry_below _ _ hne => exact hne rfl
    | apart _ _ hne => exact hne rfl
    | inside _ h => exact h.ne_nil.2 rfl
  | apart hlt hx hy =>
    intro h
    cases h with
    | entries _ => exact hx rfl
    | entry_below _ _ _ => exact hy rfl
    | apart hgt _ _ => exact lt_asymm hlt hgt
    | inside _ _ => exact lt_irrefl _ hlt
  | inside a hxy ih =>
    intro h
    cases h with
    | entries hlt => exact lt_irrefl _ hlt
    | entry_below _ _ _ => exact hxy.ne_nil.2 rfl
    | apart hlt _ _ => exact lt_irrefl _ hlt
    | inside _ h => exact ih h

theorem irrefl (h : Precedes x x) : False := h.asymm h

theorem nodup {places : List (List String)} (h : places.Pairwise Precedes) : places.Nodup := by
  apply h.imp
  intro x y hxy heq
  subst heq
  exact hxy.irrefl

end Precedes

namespace Scan

theorem byName_map {α β : Type} (f : String × α → β) (es : List (String × α)) :
    byName (es.map fun e ↦ (e.1, f e)) = (Props.sorted es).map f := by
  rw [byName, Props.sorted_map (fun e ↦ (e.1, f e)) (fun _ ↦ rfl), List.map_map]
  rfl

/-! ## Walking -/

mutual

/-- The places below a directory that a scan comes by, in the order in which it does. -/
def walk (rules : ScanRules) (relative : String) : FileTree → List (List String)
  | .directory entries =>
    byName (entries.map fun (name, _) ↦ (name, [name]))
      ++ (byName (walkDirectories rules relative entries)).flatten
  | _ => []

def walkDirectories (rules : ScanRules) (relative : String) :
    List (String × FileTree) → List (String × List (List String))
  | [] => []
  | (name, t) :: rest =>
    (name, if enters rules name (under relative name) then
        (walk rules (under relative name) t).map (name :: ·)
      else [])
      :: walkDirectories rules relative rest

end

theorem walkDirectories_eq_map (rules : ScanRules) (relative : String)
    (entries : List (String × FileTree)) :
    walkDirectories rules relative entries = entries.map fun e ↦
      (e.1, if enters rules e.1 (under relative e.1) then
          (walk rules (under relative e.1) e.2).map (e.1 :: ·)
        else []) := by
  induction entries with
  | nil => rfl
  | cons e entries ih => rw [walkDirectories, ih, List.map_cons]

theorem visitDirectories_eq_map (rules : ScanRules) (whole : FileTree) (root relative : String)
    (entries : List (String × FileTree)) :
    visitDirectories rules whole root relative entries = entries.map fun e ↦
      (e.1, if enters rules e.1 (under relative e.1) then
          visit rules whole root (under relative e.1) e.2
        else []) := by
  induction entries with
  | nil => rfl
  | cons e entries ih => rw [visitDirectories, ih, List.map_cons]

variable {rules : ScanRules} {whole t : FileTree} {root relative : String}
  {entries : List (String × FileTree)} {names : List String}

theorem walk_directory : walk rules relative (.directory entries)
    = (Props.sorted entries).map (fun e ↦ [e.1])
      ++ (Props.sorted entries).flatMap fun e ↦
        if enters rules e.1 (under relative e.1) then
          (walk rules (under relative e.1) e.2).map (e.1 :: ·)
        else [] := by
  rw [walk, byName_map fun e ↦ [e.1], walkDirectories_eq_map, byName_map, List.flatMap_def]

theorem visit_directory : visit rules whole root relative (.directory entries)
    = (Props.sorted entries).filterMap (fun e ↦
        visitFile rules whole root (under relative e.1) e.2)
      ++ (Props.sorted entries).flatMap fun e ↦
        if enters rules e.1 (under relative e.1) then
          visit rules whole root (under relative e.1) e.2
        else [] := by
  rw [visit, byName_map fun e ↦ visitFile rules whole root (under relative e.1) e.2,
    visitDirectories_eq_map, byName_map, List.flatMap_def, List.filterMap_map, Function.id_comp]

/-- The entries of a directory are what is at places of one name. -/
theorem at?_cons_of_mem (h : (FileTree.directory entries).Proper) {e : String × FileTree}
    (he : e ∈ Props.sorted entries) :
    (FileTree.directory entries).at? (e.1 :: names) = e.2.at? names := by
  cases h with
  | directory hdistinct _ _ =>
    have hget : Props.get? e.1 entries = some e.2 :=
      (Props.mem_iff_get? hdistinct).mp (Props.mem_sorted.mp he)
    rw [FileTree.at?, hget, Option.bind_some]

/-- **A visit is a walk** with a judgement about what is at each of its places. -/
theorem visit_eq_filterMap (h : t.Proper) : visit rules whole root relative t
    = (walk rules relative t).filterMap fun names ↦
      (t.at? names).bind (visitFile rules whole root (names.foldl under relative)) := by
  induction h generalizing relative with
  | file _ | special _ | link _ => rfl
  | @directory entries hdistinct hnamed hbelow ih =>
    have hproper : (FileTree.directory entries).Proper := .directory hdistinct hnamed hbelow
    rw [visit_directory, walk_directory, List.filterMap_append, List.filterMap_map,
      List.filterMap_flatMap]
    congr 1
    · refine List.filterMap_congr fun e he ↦ ?_
      rw [Function.comp_apply, at?_cons_of_mem hproper he]
      rfl
    · refine List.flatMap_congr fun e he ↦ ?_
      split
      · rw [ih e (Props.mem_sorted.mp he), List.filterMap_map]
        refine List.filterMap_congr fun names _ ↦ ?_
        rw [Function.comp_apply, at?_cons_of_mem hproper he, List.foldl_cons]
      · rfl

/-! ## The places of a walk -/

/-- Are all directories entered that the names lead through from a directory with the given path? -/
def Entered (rules : ScanRules) (relative : String) (names : List String) : Prop :=
  ∀ above name below, names = above ++ name :: below → below ≠ [] →
    enters rules name ((above ++ [name]).foldl under relative) = true

theorem entered_cons {name : String} : Entered rules relative (name :: names)
    ↔ names = [] ∨
      enters rules name (under relative name) = true ∧ Entered rules (under relative name) names := by
  constructor
  · intro h
    rcases eq_or_ne names [] with hnil | hne
    · exact Or.inl hnil
    · refine Or.inr ⟨h [] name names rfl hne, ?_⟩
      intro above name' below hnames hbelow
      have henters := h (name :: above) name' below (congrArg (name :: ·) hnames) hbelow
      rwa [List.cons_append, List.foldl_cons] at henters
  · intro h above name' below hnames hbelow
    cases above with
    | nil =>
      obtain ⟨rfl, rfl⟩ := List.cons.inj hnames
      exact (h.resolve_left hbelow).1
    | cons _ above =>
      obtain ⟨rfl, rfl⟩ := List.cons.inj hnames
      have hne : above ++ name' :: below ≠ [] := by simp
      rw [List.cons_append, List.foldl_cons]
      exact (h.resolve_left hne).2 above name' below rfl hbelow

theorem mem_walk_directory : names ∈ walk rules relative (.directory entries)
    ↔ ∃ e ∈ entries, ∃ below, names = e.1 :: below ∧
      (below = [] ∨ enters rules e.1 (under relative e.1) = true ∧
        below ∈ walk rules (under relative e.1) e.2) := by
  rw [walk_directory, List.mem_append, List.mem_map, List.mem_flatMap]
  simp only [Props.mem_sorted]
  constructor
  · rintro (⟨e, he, rfl⟩ | ⟨e, he, h⟩)
    · exact ⟨e, he, [], rfl, Or.inl rfl⟩
    · split at h
      · rename_i henters
        obtain ⟨below, hbelow, rfl⟩ := List.mem_map.mp h
        exact ⟨e, he, below, rfl, Or.inr ⟨henters, hbelow⟩⟩
      · exact absurd h List.not_mem_nil
  · rintro ⟨e, he, below, rfl, rfl | ⟨henters, hbelow⟩⟩
    · exact Or.inl ⟨e, he, rfl⟩
    · refine Or.inr ⟨e, he, ?_⟩
      rw [if_pos henters]
      exact List.mem_map_of_mem hbelow

/-- **A walk comes by** everything that has only entered directories above it. -/
theorem mem_walk (h : t.Proper) : names ∈ walk rules relative t
    ↔ names ≠ [] ∧ (t.at? names).isSome ∧ Entered rules relative names := by
  induction h generalizing relative names with
  | file _ | special _ | link _ =>
    refine ⟨fun h ↦ absurd h List.not_mem_nil, fun ⟨hne, hsome, _⟩ ↦ ?_⟩
    obtain ⟨name, names, rfl⟩ := List.exists_cons_of_ne_nil hne
    exact nomatch hsome
  | @directory entries hdistinct hnamed hbelow ih =>
    have hproper : (FileTree.directory entries).Proper := .directory hdistinct hnamed hbelow
    rw [mem_walk_directory]
    constructor
    · rintro ⟨e, he, below, rfl, h⟩
      rw [at?_cons_of_mem hproper (Props.mem_sorted.mpr he), entered_cons]
      refine ⟨List.cons_ne_nil _ _, ?_⟩
      rcases h with rfl | ⟨henters, hwalk⟩
      · exact ⟨rfl, Or.inl rfl⟩
      · obtain ⟨-, hsome, hentered⟩ := (ih e he).mp hwalk
        exact ⟨hsome, Or.inr ⟨henters, hentered⟩⟩
    · rintro ⟨hne, hsome, hentered⟩
      obtain ⟨name, below, rfl⟩ := List.exists_cons_of_ne_nil hne
      obtain ⟨u, hu⟩ := Option.isSome_iff_exists.mp hsome
      obtain ⟨_, t', hentries, hget, hu⟩ := FileTree.directory_of_at?_cons hu
      obtain rfl := FileTree.directory.inj hentries
      have hmem := Props.mem_of_get? hget
      refine ⟨(name, t'), hmem, below, rfl, ?_⟩
      rcases eq_or_ne below [] with hnil | hbelow'
      · exact Or.inl hnil
      · obtain ⟨henters, hentered⟩ := (entered_cons.mp hentered).resolve_left hbelow'
        exact Or.inr ⟨henters,
          (ih _ hmem).mpr ⟨hbelow', Option.isSome_iff_exists.mpr ⟨u, hu⟩, hentered⟩⟩

/-- What a walk lists below a subdirectory has the name of it in front. -/
theorem exists_of_mem_below {e : String × FileTree} (h : e.2.Proper)
    (hnames : names ∈ if enters rules e.1 (under relative e.1) then
      (walk rules (under relative e.1) e.2).map (e.1 :: ·) else []) :
    ∃ below, names = e.1 :: below ∧ below ≠ [] := by
  split at hnames
  · obtain ⟨below, hbelow, rfl⟩ := List.mem_map.mp hnames
    exact ⟨below, rfl, ((mem_walk h).mp hbelow).1⟩
  · exact absurd hnames List.not_mem_nil

/-- **A walk ascends** in the order of places. -/
theorem pairwise_walk (h : t.Proper) : (walk rules relative t).Pairwise Precedes := by
  induction h generalizing relative with
  | file _ | special _ | link _ => exact List.Pairwise.nil
  | @directory entries hdistinct hnamed hbelow ih =>
    have hlt := Props.pairwise_lt_sorted hdistinct
    have hproper : ∀ e ∈ Props.sorted entries, e.2.Proper := fun e he ↦
      hbelow e (Props.mem_sorted.mp he)
    rw [walk_directory, List.pairwise_append, List.pairwise_map, List.pairwise_flatMap]
    refine ⟨hlt.imp .entries, ⟨fun e he ↦ ?_, ?_⟩, ?_⟩
    · split
      · rw [List.pairwise_map]
        exact (ih e (Props.mem_sorted.mp he)).imp (.inside e.1)
      · exact List.Pairwise.nil
    · refine hlt.imp_of_mem fun ha hb hab x hx y hy ↦ ?_
      obtain ⟨x, rfl, hx'⟩ := exists_of_mem_below (hproper _ ha) hx
      obtain ⟨y, rfl, hy'⟩ := exists_of_mem_below (hproper _ hb) hy
      exact .apart hab hx' hy'
    · intro x hx y hy
      obtain ⟨e, -, rfl⟩ := List.mem_map.mp hx
      obtain ⟨e', he', hy⟩ := List.mem_flatMap.mp hy
      obtain ⟨y, rfl, hy'⟩ := exists_of_mem_below (hproper _ he') hy
      exact .entry_below e.1 e'.1 hy'

example : walk ⟨[".ts"], 100, fun _ ↦ false⟩ "" (.directory [("b.ts", .file .empty),
    ("dist", .directory [("c.ts", .file .empty)]), ("a", .directory [("d.ts", .file .empty)])])
    = [["a"], ["b.ts"], ["dist"], ["a", "d.ts"]] := by decide +kernel

end Scan

end CodeAtlas
