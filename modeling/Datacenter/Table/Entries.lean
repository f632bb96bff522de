/-!
# Entries

A list of keys with values. Looking up finds the first entry with the key. Writing to a key that is
present keeps its place; a new key comes last.

Main statements: `find_put` and `find_filter` say what a key holds after a write, `put_comm` and
`filter_put` how writes go together, `keys_put` what happens to the order.
-/

namespace Datacenter.Entries

variable {κ β : Type} [DecidableEq κ]

/-- The value of the first entry with the key. -/
def find : List (κ × β) → κ → Option β
  | [], _ => none
  | (a, v) :: rest, k => if a = k then some v else find rest k

/-- Replaces the value of the key where it stands, or adds an entry at the end. -/
def put : List (κ × β) → κ → β → List (κ × β)
  | [], k, v => [(k, v)]
  | (a, w) :: rest, k, v => if a = k then (a, v) :: rest else (a, w) :: put rest k v

/-! ### Reading after a write -/

theorem find_put (es : List (κ × β)) (k : κ) (v : β) (j : κ) :
    find (put es k v) j = if j = k then some v else find es j := by
  induction es with
  | nil => grind [find, put]
  | cons e es ih => grind [find, put]

theorem find_filter (es : List (κ × β)) (k j : κ) :
    find (es.filter (fun e => e.1 ≠ k)) j = if j = k then none else find es j := by
  induction es with
  | nil => grind [find]
  | cons e es ih => grind [find]

theorem find_map (f : κ → β → β) (es : List (κ × β)) (k : κ) :
    find (es.map fun e => (e.1, f e.1 e.2)) k = (find es k).map (f k) := by
  induction es with
  | nil => rfl
  | cons e es ih => grind [find]

/-! ### Writes after writes -/

theorem put_put (es : List (κ × β)) (k : κ) (v w : β) : put (put es k v) k w = put es k w := by
  induction es with
  | nil => simp [put]
  | cons e es ih => grind [put]

/-- Writing what a key holds already changes nothing. -/
theorem put_of_find {es : List (κ × β)} {k : κ} {v : β} (h : find es k = some v) :
    put es k v = es := by
  induction es with
  | nil => cases h
  | cons e es ih => grind [find, put]

/-- The order of two writes does not matter if one of the keys is known. -/
theorem put_comm {es : List (κ × β)} {j k : κ} {u : β} (hne : j ≠ k) (h : find es j = some u)
    (v w : β) : put (put es k v) j w = put (put es j w) k v := by
  induction es with
  | nil => cases h
  | cons e es ih => grind [find, put]

/-- Dropping an entry that was just added leaves the entries that were there. -/
theorem filter_put {es : List (κ × β)} {k : κ} (h : find es k = none) (v : β) :
    (put es k v).filter (fun e => e.1 ≠ k) = es := by
  induction es with
  | nil => simp [put]
  | cons e es ih => grind [find, put]

/-! ### Keys -/

theorem find_isSome (es : List (κ × β)) (k : κ) :
    (find es k).isSome = true ↔ k ∈ es.map Prod.fst := by
  induction es with
  | nil => simp [find]
  | cons e es ih => grind [find]

theorem keys_put (es : List (κ × β)) (k : κ) (v : β) :
    (put es k v).map Prod.fst
      = if k ∈ es.map Prod.fst then es.map Prod.fst else es.map Prod.fst ++ [k] := by
  induction es with
  | nil => simp [put]
  | cons e es ih => grind [put]

/-! ### Entries without repeated keys -/

/-- Each entry is found if no key stands twice. -/
theorem find_eq_some_iff {es : List (κ × β)} (h : (es.map Prod.fst).Nodup) (k : κ) (v : β) :
    find es k = some v ↔ (k, v) ∈ es := by
  induction es with
  | nil => simp [find]
  | cons e es ih => grind [find]

/-- A new key comes last. -/
theorem put_of_not_mem {es : List (κ × β)} {k : κ} (h : k ∉ es.map Prod.fst) (v : β) :
    put es k v = es ++ [(k, v)] := by
  induction es with
  | nil => rfl
  | cons e es ih => grind [put]

/-- A known key keeps its place. -/
theorem put_of_mem {es : List (κ × β)} (h : (es.map Prod.fst).Nodup) {k : κ}
    (hk : k ∈ es.map Prod.fst) (v : β) :
    put es k v = es.map fun e => if e.1 = k then (k, v) else e := by
  induction es with
  | nil => simp at hk
  | cons e es ih =>
    rw [put, List.map_cons]
    split
    · rename_i he
      have hn : ∀ x ∈ es, x.1 ≠ k := by grind
      rw [List.map_congr_left (g := id) (by grind), List.map_id, he]
    · rename_i he
      rw [ih (by grind) (by grind)]

end Datacenter.Entries
