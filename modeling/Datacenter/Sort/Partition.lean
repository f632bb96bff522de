import Datacenter.Sort.Run

/-!
# Sorting by parts

A list is split into the elements that are less than a pivot and the other ones, each part in the
old order, and the parts are sorted on their own. Short parts are sorted directly. Where the pivots
have split too badly, parts are sorted by runs.
-/

namespace Datacenter

variable {β : Type}

/-! ### The pivot -/

/-- The elements at two places are there, and the first one is less. -/
def lessAt (less : β → β → Bool) (xs : List β) (i j : Nat) : Bool :=
  match xs[i]?, xs[j]? with
  | some x, some y => less x y
  | _, _ => false

/-- Which of three places holds the element in the middle. -/
def medianAt (less : β → β → Bool) (xs : List β) (i j k : Nat) : Nat :=
  if lessAt less xs i j = lessAt less xs i k then
    if lessAt less xs j k = lessAt less xs i j then j else k
  else i

/-- Place of an element that should be near the middle of a stretch: the median of three such
elements of its eighths, or the first element if the stretch has less than eight. -/
def pivotAt (less : β → β → Bool) (xs : List β) (start size : Nat) : Nat :=
  if size < 8 then start
  else
    let eighth := size / 8
    medianAt less xs (pivotAt less xs start eighth)
      (pivotAt less xs (start + 4 * eighth) eighth) (pivotAt less xs (start + 7 * eighth) eighth)
termination_by size
decreasing_by all_goals omega

/-! ### The parts -/

/-- Sorts the parts of a list, which are split again at most as often as the limit says. All
elements are at least as large as a bound, if there is one. Elements that are not larger than the
pivot need no more sorting if none is less than it, or if the bound is not. -/
def sortSplit? (less : β → β → Bool) : Nat → Option β → List β → Option (List β)
  | 0, _, xs =>
    if xs.length ≤ 32 then sortShort? less xs
    else sortByRuns? less true (sortShort? less) xs
  | limit + 1, bound, xs =>
    if xs.length ≤ 32 then sortShort? less xs
    else do
      let place := pivotAt less xs 0 xs.length
      let pivot ← xs[place]?
      let before := xs.take place
      let after := xs.drop (place + 1)
      let smaller := (before ++ after).filter (less · pivot)
      if smaller.isEmpty || bound.any (!less · pivot) then
        let equal := before.filter (!less pivot ·) ++ pivot :: after.filter (!less pivot ·)
        let larger ← sortSplit? less limit none ((before ++ after).filter (less pivot ·))
        return equal ++ larger
      else
        let others := before.filter (!less · pivot) ++ pivot :: after.filter (!less · pivot)
        let left ← sortSplit? less limit bound smaller
        let right ← sortSplit? less limit (some pivot) others
        return left ++ right

/-- Sorts by parts. The limit is twice the logarithm of the length. -/
def sortByParts? (less : β → β → Bool) (xs : List β) : Option (List β) :=
  sortSplit? less (2 * xs.length.log2) none xs

/-! ### Sorting by parts loses nothing -/

/-- A list is made of the elements with a property, in front of an element and after it, and of the
others. -/
theorem filter_append_filter_perm (p : β → Bool) {xs : List β} {place : Nat} {x : β}
    (h : xs[place]? = some x) :
    ((xs.take place ++ xs.drop (place + 1)).filter p ++
      ((xs.take place).filter (!p ·) ++ x :: (xs.drop (place + 1)).filter (!p ·))).Perm xs := by
  obtain ⟨hlt, hx⟩ := List.getElem?_eq_some_iff.1 h
  have hxs : xs.take place ++ x :: xs.drop (place + 1) = xs := by
    rw [← hx, ← List.drop_eq_getElem_cons hlt, List.take_append_drop]
  have hp (ys : List β) : (ys.filter p ++ ys.filter (!p ·)).Perm ys :=
    List.filter_append_perm p ys
  have hps := (hp (xs.take place ++ xs.drop (place + 1))).cons x
  refine List.Perm.trans ?_ (hps.trans (List.perm_middle.symm.trans (List.Perm.of_eq hxs)))
  rw [List.filter_append (p := (!p ·)), ← List.append_assoc, ← List.append_assoc]
  exact List.perm_middle

theorem keepsElements_sortShort? (less : β → β → Bool) : Run.KeepsElements (sortShort? less) :=
  fun _ _ h => perm_of_sortShort? h

theorem perm_of_sortSplit? {less : β → β → Bool} {limit : Nat} {bound : Option β}
    {xs ys : List β} (h : sortSplit? less limit bound xs = some ys) : ys.Perm xs := by
  induction limit generalizing bound xs ys with
  | zero =>
    unfold sortSplit? at h
    split at h
    · exact perm_of_sortShort? h
    · exact perm_of_sortByRuns? (keepsElements_sortShort? less) h
  | succ limit ih =>
    unfold sortSplit? at h
    split at h
    · exact perm_of_sortShort? h
    · obtain ⟨pivot, hp, h⟩ := Option.bind_eq_some_iff.1 h
      simp only at h
      split at h
      · obtain ⟨larger, hl, h⟩ := Option.bind_eq_some_iff.1 h
        cases h
        have hf := filter_append_filter_perm (less pivot ·) hp
        exact (((ih hl).append_left _).trans List.perm_append_comm).trans hf
      · obtain ⟨left, hl, h⟩ := Option.bind_eq_some_iff.1 h
        obtain ⟨right, hr, h⟩ := Option.bind_eq_some_iff.1 h
        cases h
        exact ((ih hl).append (ih hr)).trans (filter_append_filter_perm (less · pivot) hp)

theorem perm_of_sortByParts? {less : β → β → Bool} {xs ys : List β}
    (h : sortByParts? less xs = some ys) : ys.Perm xs :=
  perm_of_sortSplit? h

end Datacenter
