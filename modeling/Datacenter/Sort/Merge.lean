/-!
# Merging sorted lists

Of two equal elements the one of the first list comes first. `less` need not be an order. A merge
from one end still keeps each element then, but a merge from both ends at once may want to take an
element at either end, and has no result.
-/

namespace Datacenter

variable {β : Type}

/-- Merges two lists, starting from the end of the shorter one: from the front if that is the first
list. -/
def mergeSorted (less : β → β → Bool) (xs ys : List β) : List β :=
  if xs.length ≤ ys.length then xs.merge ys (fun x y => !less y x)
  else (ys.reverse.merge xs.reverse (fun y x => !less y x)).reverse

/-- How many of the first elements of a merge the first list gives. -/
def mergeCount (le : β → β → Bool) : Nat → List β → List β → Nat
  | n + 1, x :: xs, y :: ys =>
    if le x y then mergeCount le n xs (y :: ys) + 1 else mergeCount le n (x :: xs) ys
  | n, xs, [] => min n xs.length
  | _, _, _ => 0

/-- Merges two lists of the same length, or a second one that is longer by one element. The length
of the first one is how many elements are taken from the front, and how many from the back. -/
def mergeEnds? (less : β → β → Bool) (xs ys : List β) : Option (List β) :=
  let n := xs.length
  let front := (xs.merge ys (fun x y => !less y x)).take n
  let back := (ys.reverse.merge xs.reverse (fun y x => !less y x)).take n
  let fromXs := mergeCount (fun x y => !less y x) n xs ys
  let fromYs := mergeCount (fun y x => !less y x) n ys.reverse xs.reverse
  let leftOfXs := (xs.take fromYs).drop fromXs
  let leftOfYs := (ys.take (ys.length - fromYs)).drop (n - fromXs)
  if fromXs ≤ fromYs ∧ n + fromYs ≤ ys.length + fromXs then
    some (front ++ leftOfXs ++ leftOfYs ++ back.reverse)
  else none

/-! ### Merges lose nothing -/

theorem mergeSorted_perm (less : β → β → Bool) (xs ys : List β) :
    (mergeSorted less xs ys).Perm (xs ++ ys) := by
  unfold mergeSorted
  split
  · exact List.merge_perm_append _
  · exact (List.reverse_perm _).trans ((List.merge_perm_append _).trans
      (((List.reverse_perm ys).append (List.reverse_perm xs)).trans List.perm_append_comm))

theorem mergeCount_le (le : β → β → Bool) (n : Nat) (xs ys : List β) :
    mergeCount le n xs ys ≤ n := by
  fun_induction mergeCount le n xs ys <;> grind

/-- The first elements of a merge are the first ones of both lists. -/
theorem take_merge_perm (le : β → β → Bool) (n : Nat) (xs ys : List β) :
    ((xs.merge ys le).take n).Perm
      (xs.take (mergeCount le n xs ys) ++ ys.take (n - mergeCount le n xs ys)) := by
  fun_induction mergeCount le n xs ys with
  | case1 n x xs y ys h ih =>
    simpa [List.cons_merge_cons, h] using ih
  | case2 n x xs y ys h ih =>
    have hk := mergeCount_le le n (x :: xs) ys
    rw [Nat.succ_sub hk]
    simp only [List.cons_merge_cons, h, List.take_succ_cons]
    exact (ih.cons y).trans List.perm_middle.symm
  | case3 n xs =>
    have h : xs.take n = xs.take (min n xs.length) := by
      rw [List.take_eq_take_iff]
      omega
    simp [h]
  | case4 n xs ys h1 h2 =>
    cases n <;> cases xs <;> cases ys <;> simp_all
    exact absurd rfl (h2 _ _ _ _ _ rfl rfl rfl rfl)

/-- What is taken from the front and from the back, and what is left between. -/
theorem take_append_drop_take_append_drop {i j : Nat} (xs : List β) (h : i ≤ j) :
    xs.take i ++ (xs.take j).drop i ++ xs.drop j = xs := by
  have hi : xs.take i = (xs.take j).take i := by rw [List.take_take, Nat.min_eq_left h]
  rw [hi, List.take_append_drop, List.take_append_drop]

/-- A merge from both ends that has a result loses nothing. -/
theorem perm_of_mergeEnds? {less : β → β → Bool} {xs ys zs : List β}
    (h : mergeEnds? less xs ys = some zs) : zs.Perm (xs ++ ys) := by
  classical
  simp only [mergeEnds?] at h
  split at h
  · rename_i hc
    have hback := take_merge_perm (fun y x => !less y x) xs.length ys.reverse xs.reverse
    have hfront := take_merge_perm (fun x y => !less y x) xs.length xs ys
    have hn := mergeCount_le (fun y x => !less y x) xs.length ys.reverse xs.reverse
    generalize mergeCount (fun y x => !less y x) xs.length ys.reverse xs.reverse = j at *
    generalize mergeCount (fun x y => !less y x) xs.length xs ys = i at *
    cases h
    have hx := take_append_drop_take_append_drop xs hc.1
    have hy : ys.take (xs.length - i) ++ (ys.take (ys.length - j)).drop (xs.length - i)
        ++ ys.drop (ys.length - j) = ys :=
      take_append_drop_take_append_drop ys (by omega)
    rw [List.perm_iff_count]
    intro a
    have hb := hback.count_eq a
    have hf := hfront.count_eq a
    have hx := congrArg (List.count a) hx
    have hy := congrArg (List.count a) hy
    have hl : xs.length - (xs.length - j) = j := by omega
    simp only [List.count_append, List.count_reverse, List.take_reverse, hl] at hb hf hx hy ⊢
    omega
  · cases h

end Datacenter
