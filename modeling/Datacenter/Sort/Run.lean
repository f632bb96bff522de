import Datacenter.Sort.Short

/-!
# Sorting by runs

A list is cut into runs: stretches that are in order as they stand, if they are long, and others.
Runs are joined with their neighbours like the leaves of a balanced tree. Two runs that are both
still to be sorted are joined as they are, so that a sort for all of them can follow; otherwise they
are merged.
-/

namespace Datacenter

/-- Elements that stand side by side. -/
structure Run (β : Type) where
  elements : List β
  isSorted : Bool

namespace Run

variable {β : Type}

/-! ### Cutting a list into runs -/

/-- Length of the longest start of a list in which each two neighbours are related. -/
def chainLength (related : β → β → Bool) : List β → Nat
  | [] => 0
  | [_] => 1
  | x :: y :: rest => if related x y then chainLength related (y :: rest) + 1 else 1

/-- The first elements of a list, as far as they are in order, or as far as each one is less than
the one before it. These are reversed. -/
def natural (less : β → β → Bool) : List β → List β
  | x :: y :: rest =>
    let xs := x :: y :: rest
    if less y x then (xs.take (chainLength (fun x y => less y x) xs)).reverse
    else xs.take (chainLength (fun x y => !less y x) xs)
  | xs => xs

/-- How long a run has to be to stand on its own in a list of the given length: half of it, at most
64, but in long lists about its square root. -/
def leastLength (length : Nat) : Nat :=
  if length ≤ 4096 then min (length - length / 2) 64
  else
    let guess := Nat.pow 2 ((1 + length.log2) / 2)
    (guess + length / guess) / 2

/-- The first run of a list, and the rest. A stretch that is not in order is sorted at once if the
sort is eager, 32 elements at a time. -/
def first? (less : β → β → Bool) (eager : Bool) (least : Nat) (xs : List β) :
    Option (Run β × List β) :=
  let run := natural less xs
  if least ≤ run.length then some (⟨run, true⟩, xs.drop run.length)
  else if eager then (sortShort? less (xs.take 32)).map fun run => (⟨run, true⟩, xs.drop 32)
  else some (⟨xs.take least, false⟩, xs.drop least)

/-- The runs of a list. The fuel bounds their number. -/
def cut? (less : β → β → Bool) (eager : Bool) (least : Nat) :
    Nat → List β → Option (List (Run β))
  | _, [] => some []
  | 0, _ :: _ => none
  | fuel + 1, x :: xs => do
    let (run, rest) ← first? less eager least (x :: xs)
    let runs ← cut? less eager least fuel rest
    return run :: runs

/-! ### Joining runs -/

/-- The run in order. -/
def sorted? (sortAll? : List β → Option (List β)) (run : Run β) : Option (List β) :=
  if run.isSorted then some run.elements else sortAll? run.elements

/-- Joins neighbours. If one of them is sorted, so is the result. -/
def join? (less : β → β → Bool) (sortAll? : List β → Option (List β)) (left right : Run β) :
    Option (Run β) := do
  if left.isSorted || right.isSorted then
    let xs ← left.sorted? sortAll?
    let ys ← right.sorted? sortAll?
    return ⟨mergeSorted less xs ys, true⟩
  else return ⟨left.elements ++ right.elements, false⟩

/-- Depth in a balanced tree at which neighbours are joined: how many binary places their middles
have in common, as fractions of the whole length. The neighbours reach from the start to the middle,
and from there to the stop. -/
def joinDepth (length start middle stop : Nat) : Nat :=
  let scale := (Nat.pow 2 62 + length - 1) / length
  let difference := (scale * (start + middle)) ^^^ (scale * (middle + stop))
  if difference = 0 then 64 else 63 - difference.log2

/-- Joins a run with earlier ones that wait for joins at the given depth or below it. The last one
stands first, and each one has the depth of the join with its successor. -/
def collapse? (less : β → β → Bool) (sortAll? : List β → Option (List β)) (depth : Nat)
    (run : Run β) : List (Run β × Nat) → Option (Run β × List (Run β × Nat))
  | [] => some (run, [])
  | (left, leftDepth) :: waiting =>
    if depth ≤ leftDepth then do
      let joined ← join? less sortAll? left run
      collapse? less sortAll? depth joined waiting
    else some (run, (left, leftDepth) :: waiting)

/-- Joins all runs to one. The given run starts at the given place, and the list holds those after
it. -/
def joinAll? (less : β → β → Bool) (sortAll? : List β → Option (List β)) (length : Nat)
    (start : Nat) (waiting : List (Run β × Nat)) (run : Run β) : List (Run β) → Option (Run β)
  | [] => (collapse? less sortAll? 0 run waiting).map Prod.fst
  | next :: rest => do
    let middle := start + run.elements.length
    let depth := joinDepth length start middle (middle + next.elements.length)
    let (joined, waiting) ← collapse? less sortAll? depth run waiting
    joinAll? less sortAll? length middle ((joined, depth) :: waiting) next rest

end Run

/-- Sorts by runs. An eager sort leaves nothing to the sort for all runs that are not in order. -/
def sortByRuns? {β : Type} (less : β → β → Bool) (eager : Bool)
    (sortAll? : List β → Option (List β)) (xs : List β) : Option (List β) := do
  match ← Run.cut? less eager (Run.leastLength xs.length) xs.length xs with
  | [] => return []
  | run :: rest =>
    let joined ← Run.joinAll? less sortAll? xs.length 0 [] run rest
    joined.sorted? sortAll?

/-! ### Sorting by runs loses nothing -/

namespace Run

variable {β : Type} {less : β → β → Bool} {sortAll? : List β → Option (List β)}

theorem natural_perm (less : β → β → Bool) (xs : List β) :
    (natural less xs ++ xs.drop (natural less xs).length).Perm xs := by
  have hlen (n : Nat) : xs.drop (min n xs.length) = xs.drop n := by
    rw [List.drop_eq_drop_iff]
    omega
  unfold natural
  split
  · split
    · rw [List.length_reverse, List.length_take, hlen]
      exact ((List.reverse_perm _).append_right _).trans (by rw [List.take_append_drop])
    · rw [List.length_take, hlen, List.take_append_drop]
  · simp

theorem perm_of_first? {eager : Bool} {least : Nat} {xs rest : List β} {run : Run β}
    (h : first? less eager least xs = some (run, rest)) : (run.elements ++ rest).Perm xs := by
  simp only [first?] at h
  split at h
  · cases h
    exact natural_perm less xs
  · split at h
    · obtain ⟨ys, hy, h⟩ := Option.map_eq_some_iff.1 h
      cases h
      have hp := (perm_of_sortShort? hy).append_right (xs.drop 32)
      rwa [List.take_append_drop] at hp
    · cases h
      exact List.Perm.of_eq (List.take_append_drop ..)

/-- The elements of runs. -/
def elementsOf (runs : List (Run β)) : List β := runs.flatMap (·.elements)

theorem perm_of_cut? {eager : Bool} {least fuel : Nat} {xs : List β} {runs : List (Run β)}
    (h : cut? less eager least fuel xs = some runs) : (elementsOf runs).Perm xs := by
  induction fuel generalizing xs runs with
  | zero =>
    cases xs with
    | nil =>
      cases h
      exact List.Perm.refl _
    | cons x xs => cases h
  | succ fuel ih =>
    cases xs with
    | nil =>
      cases h
      exact List.Perm.refl _
    | cons x xs =>
      obtain ⟨⟨run, rest⟩, hf, h⟩ := Option.bind_eq_some_iff.1 h
      obtain ⟨later, hl, h⟩ := Option.bind_eq_some_iff.1 h
      cases h
      exact ((ih hl).append_left _).trans (perm_of_first? hf)

/-- A sort that loses nothing. -/
def KeepsElements (sort? : List β → Option (List β)) : Prop :=
  ∀ ⦃xs ys⦄, sort? xs = some ys → ys.Perm xs

theorem perm_of_sorted? (hs : KeepsElements sortAll?) {run : Run β} {ys : List β}
    (h : run.sorted? sortAll? = some ys) : ys.Perm run.elements := by
  unfold sorted? at h
  split at h
  · cases h
    exact List.Perm.refl _
  · exact hs h

theorem perm_of_join? (hs : KeepsElements sortAll?) {left right joined : Run β}
    (h : join? less sortAll? left right = some joined) :
    joined.elements.Perm (left.elements ++ right.elements) := by
  unfold join? at h
  split at h
  · obtain ⟨xs, hx, h⟩ := Option.bind_eq_some_iff.1 h
    obtain ⟨ys, hy, h⟩ := Option.bind_eq_some_iff.1 h
    cases h
    exact (mergeSorted_perm less xs ys).trans
      ((perm_of_sorted? hs hx).append (perm_of_sorted? hs hy))
  · cases h
    exact List.Perm.refl _

/-- The elements of runs whose last one stands first. -/
def waitingElements (waiting : List (Run β × Nat)) : List β :=
  waiting.foldr (fun w later => later ++ w.1.elements) []

theorem perm_of_collapse? (hs : KeepsElements sortAll?) {depth : Nat} {run joined : Run β}
    {waiting left : List (Run β × Nat)}
    (h : collapse? less sortAll? depth run waiting = some (joined, left)) :
    (waitingElements left ++ joined.elements).Perm (waitingElements waiting ++ run.elements) := by
  induction waiting generalizing run with
  | nil =>
    cases h
    exact List.Perm.refl _
  | cons w waiting ih =>
    unfold collapse? at h
    split at h
    · obtain ⟨next, hj, h⟩ := Option.bind_eq_some_iff.1 h
      have hp := (ih h).trans ((perm_of_join? hs hj).append_left _)
      simpa [waitingElements, List.append_assoc] using hp
    · cases h
      exact List.Perm.refl _

/-- At depth zero no run goes on waiting. -/
theorem eq_nil_of_collapse?_zero {run joined : Run β} {waiting left : List (Run β × Nat)}
    (h : collapse? less sortAll? 0 run waiting = some (joined, left)) : left = [] := by
  induction waiting generalizing run with
  | nil =>
    cases h
    rfl
  | cons w waiting ih =>
    unfold collapse? at h
    rw [if_pos (Nat.zero_le _)] at h
    obtain ⟨next, _, h⟩ := Option.bind_eq_some_iff.1 h
    exact ih h

theorem perm_of_joinAll? (hs : KeepsElements sortAll?) {length start : Nat}
    {waiting : List (Run β × Nat)} {run joined : Run β} {rest : List (Run β)}
    (h : joinAll? less sortAll? length start waiting run rest = some joined) :
    joined.elements.Perm (waitingElements waiting ++ run.elements ++ elementsOf rest) := by
  induction rest generalizing start waiting run with
  | nil =>
    obtain ⟨⟨last, left⟩, hc, h⟩ := Option.map_eq_some_iff.1 h
    cases h
    have hp := perm_of_collapse? hs hc
    rw [eq_nil_of_collapse?_zero hc] at hp
    simpa [waitingElements, elementsOf] using hp
  | cons next rest ih =>
    obtain ⟨⟨last, left⟩, hc, h⟩ := Option.bind_eq_some_iff.1 h
    have hp := (perm_of_collapse? hs hc).append_right (next.elements ++ elementsOf rest)
    refine (ih h).trans ?_
    simpa [waitingElements, elementsOf, List.append_assoc] using hp

end Run

theorem perm_of_sortByRuns? {β : Type} {less : β → β → Bool} {eager : Bool}
    {sortAll? : List β → Option (List β)} (hs : Run.KeepsElements sortAll?) {xs ys : List β}
    (h : sortByRuns? less eager sortAll? xs = some ys) : ys.Perm xs := by
  obtain ⟨runs, hc, h⟩ := Option.bind_eq_some_iff.1 h
  have hp := Run.perm_of_cut? hc
  cases runs with
  | nil =>
    cases h
    exact hp
  | cons run rest =>
    obtain ⟨joined, hj, h⟩ := Option.bind_eq_some_iff.1 h
    exact ((Run.perm_of_sorted? hs h).trans (Run.perm_of_joinAll? hs hj)).trans hp

end Datacenter
