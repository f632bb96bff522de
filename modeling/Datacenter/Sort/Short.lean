import Datacenter.Sort.Insertion
import Datacenter.Sort.Merge

/-!
# Sorting short lists

Both halves of a list are sorted on their own and merged from both ends. A half starts with a
network of comparisons for its first eight or four elements, as the length of the list allows, and
inserts the others. Equal elements keep their order.
-/

namespace Datacenter

variable {β : Type}

/-- Two elements in order. -/
def inOrder (less : β → β → Bool) (a b : β) : β × β := if less b a then (b, a) else (a, b)

/-- Sorts four elements with five comparisons. -/
def sortFour (less : β → β → Bool) (a b c d : β) : List β :=
  let (low₁, high₁) := inOrder less a b
  let (low₂, high₂) := inOrder less c d
  let lowest := if less low₂ low₁ then low₂ else low₁
  let highest := if less high₂ high₁ then high₁ else high₂
  let left := if less low₂ low₁ then low₁ else if less high₂ high₁ then low₂ else high₁
  let right := if less high₂ high₁ then high₂ else if less low₂ low₁ then high₁ else low₂
  let (second, third) := inOrder less left right
  [lowest, second, third, highest]

/-- Sorts four or eight elements by networks, and any other number by insertion. -/
def sortNetwork? (less : β → β → Bool) : List β → Option (List β)
  | [a, b, c, d] => some (sortFour less a b c d)
  | [a, b, c, d, e, f, g, h] => mergeEnds? less (sortFour less a b c d) (sortFour less e f g h)
  | xs => some (insertionSort less xs)

/-- How many elements of each half of a list a network sorts. -/
def networkSize (length : Nat) : Nat := if length < 8 then 1 else if length < 16 then 4 else 8

/-- Sorts a half of a list of the given length. -/
def sortHalf? (less : β → β → Bool) (length : Nat) (xs : List β) : Option (List β) := do
  let start ← sortNetwork? less (xs.take (networkSize length))
  return insertAll less start (xs.drop (networkSize length))

/-- Sorts a list that should be short. -/
def sortShort? (less : β → β → Bool) (xs : List β) : Option (List β) := do
  let left ← sortHalf? less xs.length (xs.take (xs.length / 2))
  let right ← sortHalf? less xs.length (xs.drop (xs.length / 2))
  mergeEnds? less left right

/-! ### Short sorts lose nothing -/

theorem count_inOrder [BEq β] (less : β → β → Bool) (a b x : β) :
    [(inOrder less a b).1, (inOrder less a b).2].count x = [a, b].count x := by
  unfold inOrder
  split
  · simp only [List.count_cons, List.count_nil]
    omega
  · rfl

theorem sortFour_perm (less : β → β → Bool) (a b c d : β) :
    (sortFour less a b c d).Perm [a, b, c, d] := by
  classical
  rw [List.perm_iff_count]
  intro x
  have h₁ := count_inOrder less a b x
  have h₂ := count_inOrder less c d x
  have h₃ (low left right high : β) :
      [low, (inOrder less left right).1, (inOrder less left right).2, high].count x
        = [low, left, right, high].count x := by
    have h := count_inOrder less left right x
    simp only [List.count_cons, List.count_nil] at h ⊢
    omega
  unfold sortFour
  generalize inOrder less a b = p at *
  generalize inOrder less c d = q at *
  dsimp only
  rw [h₃]
  cases less q.1 p.1 <;> cases less q.2 p.2
  all_goals
    simp only [List.count_cons, List.count_nil, Bool.false_eq_true, ↓reduceIte] at h₁ h₂ ⊢
    omega

theorem perm_of_sortNetwork? {less : β → β → Bool} {xs ys : List β}
    (h : sortNetwork? less xs = some ys) : ys.Perm xs := by
  unfold sortNetwork? at h
  split at h
  · cases h
    exact sortFour_perm less _ _ _ _
  · exact (perm_of_mergeEnds? h).trans ((sortFour_perm ..).append (sortFour_perm ..))
  · cases h
    exact insertionSort_perm less _

theorem perm_of_sortHalf? {less : β → β → Bool} {length : Nat} {xs ys : List β}
    (h : sortHalf? less length xs = some ys) : ys.Perm xs := by
  obtain ⟨start, hs, h⟩ := Option.bind_eq_some_iff.1 h
  cases h
  have hp := (insertAll_perm less start (xs.drop (networkSize length))).trans
    ((perm_of_sortNetwork? hs).append_right _)
  rwa [List.take_append_drop] at hp

theorem perm_of_sortShort? {less : β → β → Bool} {xs ys : List β}
    (h : sortShort? less xs = some ys) : ys.Perm xs := by
  obtain ⟨left, hl, h⟩ := Option.bind_eq_some_iff.1 h
  obtain ⟨right, hr, h⟩ := Option.bind_eq_some_iff.1 h
  have hp := (perm_of_mergeEnds? h).trans ((perm_of_sortHalf? hl).append (perm_of_sortHalf? hr))
  rwa [List.take_append_drop] at hp

end Datacenter
