/-!
# Stable insertion sort

Elements are taken from left to right, and each one moves left past those it is less than. Equal
elements keep their order. `less` need not be an order: two elements of which neither is less stay
as they are.
-/

namespace Datacenter

variable {β : Type}

/-- Inserts into a list whose last element stands first. -/
def insertFromEnd (less : β → β → Bool) (x : β) : List β → List β
  | [] => [x]
  | y :: ys => if less x y then y :: insertFromEnd less x ys else x :: y :: ys

/-- Inserts elements into a sorted list, one after the other. -/
def insertAll (less : β → β → Bool) (sorted xs : List β) : List β :=
  (xs.foldl (fun sorted x => insertFromEnd less x sorted) sorted.reverse).reverse

/-- Sorts by `less`, the smallest element first. -/
def insertionSort (less : β → β → Bool) (xs : List β) : List β := insertAll less [] xs

theorem insertFromEnd_perm (less : β → β → Bool) (x : β) (ys : List β) :
    (insertFromEnd less x ys).Perm (x :: ys) := by
  induction ys with
  | nil => exact List.Perm.refl _
  | cons y ys ih =>
    rw [insertFromEnd]
    split
    · exact (ih.cons y).trans (List.Perm.swap x y ys)
    · exact List.Perm.refl _

theorem foldl_insertFromEnd_perm (less : β → β → Bool) (xs acc : List β) :
    (xs.foldl (fun sorted x => insertFromEnd less x sorted) acc).Perm (xs ++ acc) := by
  induction xs generalizing acc with
  | nil => exact List.Perm.refl _
  | cons x xs ih =>
    exact (ih _).trans (((insertFromEnd_perm less x acc).append_left xs).trans List.perm_middle)

/-- Inserting adds the elements and loses nothing. -/
theorem insertAll_perm (less : β → β → Bool) (sorted xs : List β) :
    (insertAll less sorted xs).Perm (sorted ++ xs) := by
  have h := foldl_insertFromEnd_perm less xs sorted.reverse
  exact (List.reverse_perm _).trans
    (h.trans (((List.reverse_perm sorted).append_left xs).trans List.perm_append_comm))

/-- Sorting reorders its input and loses nothing. -/
theorem insertionSort_perm (less : β → β → Bool) (xs : List β) :
    (insertionSort less xs).Perm xs := insertAll_perm less [] xs

end Datacenter
