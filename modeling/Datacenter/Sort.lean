import Datacenter.Sort.Partition

/-!
# Stable sort

Lists of at most 20 elements are sorted by insertion, and longer ones by runs. Equal elements keep
their order. If `less` is no order, a list of more than 20 elements may have no result, and
otherwise the result is some arrangement of its elements.
-/

namespace Datacenter

variable {β : Type}

/-- Sorts by `less`, the smallest element first. Up to 64 elements runs are sorted eagerly. -/
def stableSort? (less : β → β → Bool) (xs : List β) : Option (List β) :=
  if xs.length ≤ 20 then some (insertionSort less xs)
  else sortByRuns? less (xs.length ≤ 64) (sortByParts? less) xs

/-- A result holds the elements of the list and no others. -/
theorem perm_of_stableSort? {less : β → β → Bool} {xs ys : List β}
    (h : stableSort? less xs = some ys) : ys.Perm xs := by
  unfold stableSort? at h
  split at h
  · cases h
    exact insertionSort_perm less xs
  · exact perm_of_sortByRuns? (fun _ _ h => perm_of_sortByParts? h) h

end Datacenter
