import CodeAtlas.Proofs.Entries
import CodeAtlas.Proofs.Files.RealPath
import Mathlib.Data.List.Basic

/-!
# Writing files

A file that has been written is there, if the path is one that can be used at all: nothing speaks
against writing it, and where there are links they do not lead in a circle. In a tree without links
only the former matters, and writing files puts no links into it.
-/

namespace CodeAtlas.FileTree

/-- Whatever is written at the path is there afterwards. -/
def Keeps (root : FileTree) (path : String) : Prop :=
  ∀ content, (root.write path content).read path = .ok content

/-- A text is read back from its bytes. -/
theorem fromUTF8?_toUTF8 (s : String) : String.fromUTF8? s.toUTF8 = some s := by
  have hvalid : s.toUTF8.IsValidUTF8 := s.isValidUTF8
  rw [String.fromUTF8?, dif_pos hvalid]
  rfl

/-- What has been put at a place is found there. -/
theorem find_put {place : List String} (hplace : ∀ name ∈ place, name.utf8ByteSize ≤ maxNameLength)
    (content t : FileTree) : find place (put content place t) = .ok content := by
  induction place generalizing t with
  | nil => rfl
  | cons name place ih =>
    rw [List.forall_mem_cons] at hplace
    have hshort : ¬ maxNameLength < name.utf8ByteSize := Nat.not_lt.mpr hplace.1
    cases t with
    | directory entries =>
      rw [put, find, if_neg hshort, Props.get?_insert_self]
      exact ih hplace.2 _
    | file _ | special _ | link _ =>
      rw [put, find, if_neg hshort, Props.get?, beq_self_eq_true, if_pos rfl]
      · exact ih hplace.2 _
      · rintro _ ⟨⟩

theorem linkCountAll_insert_le (name : String) {t : FileTree} (ht : t.linkCount = 0)
    (entries : List (String × FileTree)) :
    linkCountAll (Props.insert name t entries) ≤ linkCountAll entries := by
  induction entries with
  | nil => simp [Props.insert, linkCountAll, ht]
  | cons e entries ih =>
    rw [Props.insert]
    split
    · rw [linkCountAll, linkCountAll, ht]
      omega
    · rw [linkCountAll, linkCountAll]
      omega

theorem linkCount_eq_zero_of_get? {name : String} {t : FileTree}
    {entries : List (String × FileTree)} (h : linkCountAll entries = 0)
    (ht : Props.get? name entries = some t) : t.linkCount = 0 := by
  induction entries with
  | nil => exact nomatch ht
  | cons e entries ih =>
    rw [linkCountAll, Nat.add_eq_zero_iff] at h
    rw [Props.get?] at ht
    split at ht
    · exact Option.some.inj ht ▸ h.1
    · exact ih h.2 ht

theorem linkCount_put {content : FileTree} (hcontent : content.linkCount = 0) (place : List String)
    {t : FileTree} (ht : t.linkCount = 0) : (put content place t).linkCount = 0 := by
  induction place generalizing t with
  | nil => exact hcontent
  | cons name place ih =>
    have hempty : empty.linkCount = 0 := rfl
    cases t with
    | directory entries =>
      have hinner : ((Props.get? name entries).getD empty).linkCount = 0 := by
        cases hget : Props.get? name entries with
        | none => exact hempty
        | some inner => exact linkCount_eq_zero_of_get? ht hget
      have hle := linkCountAll_insert_le name (ih hinner) entries
      rw [put, linkCount]
      rw [linkCount] at ht
      omega
    | file _ | special _ =>
      rw [put, linkCount, linkCountAll, ih hempty, linkCountAll]
      exact fun _ h ↦ nomatch h
    | link _ => exact absurd ht (by rw [linkCount]; decide)

/-! ## What can be written -/

variable {root : FileTree} {path : String}

theorem find_append (place place' : List String) (t : FileTree) :
    find (place ++ place') t = (find place t).bind (find place') := by
  induction place generalizing t with
  | nil => rfl
  | cons name place ih =>
    cases t with
    | directory entries =>
      rw [List.cons_append, find, find]
      split
      · rfl
      · split
        · exact ih _
        · rfl
    | file _ | special _ | link _ => rfl

/-- Only short names lead somewhere. -/
theorem forall_le_of_find {place : List String} {t u : FileTree} (h : find place t = .ok u) :
    ∀ name ∈ place, name.utf8ByteSize ≤ maxNameLength := by
  induction place generalizing t with
  | nil => exact fun _ hname ↦ absurd hname List.not_mem_nil
  | cons name place ih =>
    cases t with
    | directory entries =>
      rw [find] at h
      split at h
      · exact absurd h (by simp)
      · rename_i hshort
        split at h
        · exact List.forall_mem_cons.mpr ⟨Nat.not_lt.mp hshort, ih h⟩
        · exact absurd h (by simp)
    | file _ | special _ | link _ => exact absurd h (by simp [find])

/-- Where a file can be put, there is one, or nothing in a directory. -/
theorem writeFault?_eq_none (h : root.writeFault? path = none) :
    path.utf8ByteSize ≤ maxPathLength ∧ ((∃ content, find (root.placeOf path) root = .ok (file content)) ∨
      find (root.placeOf path) root = .error .missing ∧
        ∃ entries, find (root.placeOf path).dropLast root = .ok (directory entries)) := by
  rw [writeFault?] at h
  split at h
  · exact absurd h (by simp)
  · rename_i hpath
    refine ⟨Nat.not_lt.mp hpath, ?_⟩
    dsimp only at h
    split at h
    · rename_i hfile
      exact Or.inl ⟨_, hfile⟩
    · exact absurd h (by simp)
    · exact absurd h (by simp)
    · exact absurd h (by simp)
    · rename_i entries hmissing hdirectory
      exact Or.inr ⟨hmissing, entries, hdirectory⟩
    · exact absurd h (by simp)

/-- The names on a path that can be written are short enough. -/
theorem forall_le_of_writeFault? (h : root.writeFault? path = none) :
    ∀ name ∈ root.placeOf path, name.utf8ByteSize ≤ maxNameLength := by
  obtain ⟨-, ⟨content, hfile⟩ | ⟨hmissing, entries, hdirectory⟩⟩ := writeFault?_eq_none h
  · exact forall_le_of_find hfile
  · rcases List.eq_nil_or_concat' (root.placeOf path) with hnil | ⟨place, last, hplace⟩
    · rw [hnil]
      exact fun _ hname ↦ absurd hname List.not_mem_nil
    · rw [hplace, List.dropLast_concat] at hdirectory
      rw [hplace, find_append, hdirectory] at hmissing
      have hlast : find [last] (directory entries) = .error .missing := hmissing
      rw [find] at hlast
      split at hlast
      · exact absurd hlast (by simp)
      · rename_i hshort
        rw [hplace, List.forall_mem_append, List.forall_mem_singleton]
        exact ⟨forall_le_of_find hdirectory, Nat.not_lt.mp hshort⟩

theorem write_of_writable (h : root.writeFault? path = none) (content : ByteArray) :
    root.write path content = root.putFile path content := by
  rw [write, h, Option.isSome_none, if_neg Bool.false_ne_true]

/-- What is kept can be written. -/
theorem Keeps.writable (h : root.Keeps path) : root.writeFault? path = none := by
  cases hfault : root.writeFault? path with
  | none => rfl
  | some e =>
    -- Otherwise two contents would be read from one tree.
    have hread : ∀ content, root.read path = .ok content := by
      intro content
      have hcontent := h content
      rwa [write, hfault, Option.isSome_some, if_pos rfl] at hcontent
    have hsame := (hread "a".toUTF8).symm.trans (hread "b".toUTF8)
    exact absurd hsame (by decide)

/-! ## Trees without links -/

/-- There are no links, and a file can be written at the path. -/
structure Accepts (root : FileTree) (path : String) : Prop where
  linkless : root.linkCount = 0
  writable : root.writeFault? path = none

namespace Accepts

variable (h : root.Accepts path)

include h

theorem linkCount_write (path' : String) (content : ByteArray) :
    (root.write path' content).linkCount = 0 := by
  rw [write]
  split
  · exact h.linkless
  · exact linkCount_put rfl _ h.linkless

theorem find_write (content : ByteArray) :
    find ((root.write path content).placeOf path) (root.write path content) = .ok (.file content) := by
  rw [placeOf_of_linkless (h.linkCount_write path content), ← placeOf_of_linkless h.linkless,
    write_of_writable h.writable]
  exact find_put (forall_le_of_writeFault? h.writable) _ _

theorem keeps : root.Keeps path := by
  intro content
  rw [read, if_neg (Nat.not_lt.mpr (writeFault?_eq_none h.writable).1), h.find_write]

theorem write (content : ByteArray) : (root.write path content).Accepts path := by
  refine ⟨h.linkCount_write path content, ?_⟩
  rw [writeFault?, if_neg (Nat.not_lt.mpr (writeFault?_eq_none h.writable).1)]
  simp only [h.find_write]

end Accepts

end CodeAtlas.FileTree
