/-!
# Stable sorting

Sorting by a test that says which of two items comes first. The items are taken one after the other,
and each moves left past those it comes before. The result is a permutation of the list, and what
the test cannot tell apart keeps its order.
-/

namespace DocStore

/-- Puts an item into a list that is sorted from last to first. -/
def insertRight {α : Type} (before : α → α → Bool) (x : α) : List α → List α
  | [] => [x]
  | y :: rest => if before x y then y :: insertRight before x rest else x :: y :: rest

def stableSort {α : Type} (before : α → α → Bool) (xs : List α) : List α :=
  (xs.foldl (fun sorted x => insertRight before x sorted) []).reverse

theorem insertRight_perm {α : Type} (before : α → α → Bool) (x : α) (xs : List α) :
    (insertRight before x xs).Perm (x :: xs) := by
  induction xs with
  | nil => exact .refl _
  | cons y rest ih =>
    rw [insertRight]
    split
    · exact (ih.cons y).trans (.swap x y rest)
    · exact .refl _

theorem foldl_insertRight_perm {α : Type} (before : α → α → Bool) (xs sorted : List α) :
    (xs.foldl (fun sorted x => insertRight before x sorted) sorted).Perm (xs ++ sorted) := by
  induction xs generalizing sorted with
  | nil => exact .refl _
  | cons x rest ih =>
    have step := (insertRight_perm before x sorted).append_left rest
    exact (ih _).trans (step.trans List.perm_middle)

theorem stableSort_perm {α : Type} (before : α → α → Bool) (xs : List α) :
    (stableSort before xs).Perm xs := by
  have sorted := foldl_insertRight_perm before xs []
  rw [List.append_nil] at sorted
  exact (List.reverse_perm _).trans sorted

end DocStore
