import CodeAtlas.Files.Tree

/-!
# Real paths in trees without links

Following a path takes fuel only where it passes a link. A tree without links gives no fuel, and
then a place is found from the names on the path alone.
-/

namespace CodeAtlas.FileTree

/-- One name further on, in a place that is given last name first. -/
def stepPlace (place : List String) (name : String) : List String :=
  if name == ".." then place.drop 1 else name :: place

theorem follow_zero (root : FileTree) (started : List (List String)) (place names : List String) :
    root.follow 0 started place names = names.foldl stepPlace place := by
  induction names generalizing place with
  | nil => rw [follow, List.foldl_nil]
  | cons name names ih =>
    rw [follow, List.foldl_cons, stepPlace]
    split
    · exact ih _
    · dsimp only
      split
      · rename_i hfuel
        exact absurd hfuel (by simp)
      · exact ih _

/-- The place that the names on a path lead to, without regard to links. -/
def plainPlace (path : String) : List String := ((namesOn path).foldl stepPlace []).reverse

variable {root : FileTree} (h : root.linkCount = 0)

include h

theorem placeOf_of_linkless (path : String) : root.placeOf path = plainPlace path := by
  rw [placeOf, h, follow_zero, plainPlace]

theorem realPath_of_linkless : root.realPath = fun path ↦ pathOf (plainPlace path) := by
  funext path
  rw [realPath, placeOf_of_linkless h]

end CodeAtlas.FileTree
