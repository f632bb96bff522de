import Std.Data.TreeMap
import Datacenter.Table.Entries

/-!
# Indexed entries

Entries that are found in logarithmic time. Each key has a place, and places ascend in the order in
which keys came in. A key keeps its place when it is written to again; the place of an erased key
stays empty.

Main statements: `get?_eq_find`, `entries_insert` and `entries_erase` say that an index does what
the list of its entries does.
-/

namespace Datacenter

/-! ### Numbered values -/

namespace Slots

variable {γ : Type}

theorem sorted (t : Std.TreeMap Nat γ) : t.toList.Pairwise (fun a b => a.1 < b.1) :=
  t.ordered_keys_toList.imp Nat.compare_eq_lt.mp

/-- Ascending lists with the same members are equal. -/
theorem eq_of_sorted {xs ys : List (Nat × γ)} (hx : xs.Pairwise (fun a b => a.1 < b.1))
    (hy : ys.Pairwise (fun a b => a.1 < b.1)) (h : ∀ e, e ∈ xs ↔ e ∈ ys) : xs = ys := by
  have nodup {zs : List (Nat × γ)} (hz : zs.Pairwise (fun a b => a.1 < b.1)) : zs.Nodup :=
    hz.imp fun {a b} hab (he : a = b) => Nat.lt_irrefl _ (he ▸ hab)
  exact List.Perm.eq_of_pairwise
    (fun a b _ _ hab hba => absurd hba (Nat.lt_asymm hab)) hx hy
    ((List.perm_ext_iff_of_nodup (nodup hx) (nodup hy)).mpr h)

theorem mem_toList_iff (t : Std.TreeMap Nat γ) (e : Nat × γ) :
    e ∈ t.toList ↔ t[e.1]? = some e.2 :=
  Std.TreeMap.mem_toList_iff_getElem?_eq_some

/-- A value behind all others is listed last. -/
theorem toList_insert_last {t : Std.TreeMap Nat γ} {n : Nat}
    (h : ∀ (m : Nat) (w : γ), t[m]? = some w → m < n) (v : γ) :
    (t.insert n v).toList = t.toList ++ [(n, v)] := by
  apply eq_of_sorted (sorted _)
  · rw [List.pairwise_append]
    refine ⟨sorted t, List.pairwise_singleton _ _, ?_⟩
    intro a ha b hb
    rw [List.mem_singleton.mp hb]
    exact h a.1 a.2 ((mem_toList_iff t a).mp ha)
  · rintro ⟨m, w⟩
    have := h m w
    simp only [mem_toList_iff, Std.TreeMap.getElem?_insert, List.mem_append, List.mem_singleton,
      Nat.compare_eq_eq]
    grind

/-- A new value for a number stands where the old one stood. -/
theorem toList_insert_known {t : Std.TreeMap Nat γ} {n : Nat} {w : γ} (h : t[n]? = some w)
    (v : γ) : (t.insert n v).toList = t.toList.map fun e => if e.1 = n then (n, v) else e := by
  apply eq_of_sorted (sorted _)
  · rw [List.pairwise_map]
    exact (sorted t).imp fun {a b} hab => by grind
  · rintro ⟨m, u⟩
    simp only [mem_toList_iff, Std.TreeMap.getElem?_insert, List.mem_map, Nat.compare_eq_eq]
    constructor
    · intro hm
      split at hm
      · exact ⟨(n, w), by simpa using h, by grind⟩
      · exact ⟨(m, u), hm, by grind⟩
    · rintro ⟨e, he, hu⟩
      grind

theorem toList_erase (t : Std.TreeMap Nat γ) (n : Nat) :
    (t.erase n).toList = t.toList.filter fun e => e.1 ≠ n := by
  apply eq_of_sorted (sorted _) ((sorted t).filter _)
  rintro ⟨m, u⟩
  simp only [mem_toList_iff, Std.TreeMap.getElem?_erase, List.mem_filter, Nat.compare_eq_eq]
  grind

end Slots

/-! ### Indices -/

structure Index (κ β : Type) [Ord κ] where
  /-- The place that the next new key gets. -/
  next : Nat
  places : Std.TreeMap κ Nat
  slots : Std.TreeMap Nat (κ × β)

namespace Index

variable {κ β : Type} [Ord κ]

def empty : Index κ β := ⟨0, ∅, ∅⟩

/-- The entries, in the order of their places. -/
def entries (x : Index κ β) : List (κ × β) := x.slots.toList.map Prod.snd

/-- The keys, in the order of their places. -/
def keys (x : Index κ β) : List κ := x.slots.foldr (fun _ e keys => e.1 :: keys) []

/-- The values, in the order of their places. -/
def values (x : Index κ β) : List β := x.slots.foldr (fun _ e values => e.2 :: values) []

def size (x : Index κ β) : Nat := x.slots.size

def get? (x : Index κ β) (k : κ) : Option β :=
  match x.places[k]? with
  | none => none
  | some place => x.slots[place]?.map Prod.snd

def insert (x : Index κ β) (k : κ) (v : β) : Index κ β :=
  match x.places[k]? with
  | some place => { x with slots := x.slots.insert place (k, v) }
  | none => ⟨x.next + 1, x.places.insert k x.next, x.slots.insert x.next (k, v)⟩

/-- Changes all values. -/
def map (f : κ → β → β) (x : Index κ β) : Index κ β :=
  { x with slots := x.slots.map fun _ e => (e.1, f e.1 e.2) }

def erase (x : Index κ β) (k : κ) : Index κ β :=
  match x.places[k]? with
  | none => x
  | some place => { x with places := x.places.erase k, slots := x.slots.erase place }

theorem keys_eq (x : Index κ β) : x.keys = x.entries.map Prod.fst := by
  rw [keys, Std.TreeMap.foldr_eq_foldr_toList, entries, List.map_map, List.map_eq_foldr]
  rfl

theorem values_eq (x : Index κ β) : x.values = x.entries.map Prod.snd := by
  rw [values, Std.TreeMap.foldr_eq_foldr_toList, entries, List.map_map, List.map_eq_foldr]
  rfl

theorem length_entries (x : Index κ β) : x.entries.length = x.size := by
  rw [entries, List.length_map, Std.TreeMap.length_toList, size]

theorem entries_map (f : κ → β → β) (x : Index κ β) :
    (x.map f).entries = x.entries.map fun e => (e.1, f e.1 e.2) := by
  rw [entries, map, Std.TreeMap.toList_map, entries, List.map_map, List.map_map]
  rfl

/-- Keys and places belong together, and no place is beyond the next one. -/
structure Sound (x : Index κ β) : Prop where
  place_iff : ∀ (k : κ) (place : Nat),
    x.places[k]? = some place ↔ ∃ v, x.slots[place]? = some (k, v)
  place_lt : ∀ (place : Nat) (e : κ × β), x.slots[place]? = some e → place < x.next

/-- The entry at the place of a key is the only one with that key. -/
theorem Sound.place_eq_iff {x : Index κ β} (h : x.Sound) {k : κ} {place : Nat}
    (hp : x.places[k]? = some place) {e : Nat × κ × β} (he : x.slots[e.1]? = some e.2) :
    e.1 = place ↔ e.2.1 = k := by
  constructor
  · intro hq
    obtain ⟨w, hw⟩ := (h.place_iff k place).mp hp
    rw [hq, hw] at he
    exact (congrArg Prod.fst (Option.some.inj he)).symm
  · intro hq
    have hk := (h.place_iff e.2.1 e.1).mpr ⟨e.2.2, he⟩
    rw [hq, hp] at hk
    exact (Option.some.inj hk).symm

theorem Sound.mem_entries_iff {x : Index κ β} (h : x.Sound) (k : κ) (v : β) :
    (k, v) ∈ x.entries ↔ x.get? k = some v := by
  rw [entries, List.mem_map]
  constructor
  · rintro ⟨e, he, hv⟩
    rw [Slots.mem_toList_iff, hv] at he
    have hp := (h.place_iff k e.1).mpr ⟨v, he⟩
    simp [get?, hp, he]
  · intro hg
    rw [get?] at hg
    split at hg
    · cases hg
    · rename_i place hp
      obtain ⟨w, hw⟩ := (h.place_iff k place).mp hp
      simp only [hw, Option.map_some, Option.some.injEq] at hg
      exact ⟨(place, k, v), (Slots.mem_toList_iff ..).mpr (hg ▸ hw), rfl⟩

theorem Sound.nodup_keys {x : Index κ β} (h : x.Sound) : (x.entries.map Prod.fst).Nodup := by
  rw [entries, List.map_map, List.Nodup, List.pairwise_map]
  refine (Slots.sorted x.slots).imp_of_mem ?_
  intro a b ha hb hab he
  rw [Slots.mem_toList_iff] at ha hb
  have hpa := (h.place_iff a.2.1 a.1).mpr ⟨a.2.2, ha⟩
  have hpb := (h.place_iff b.2.1 b.1).mpr ⟨b.2.2, hb⟩
  simp only [Function.comp_apply] at he
  rw [he, hpb] at hpa
  exact Nat.ne_of_gt hab (Option.some.inj hpa)

theorem Sound.get?_eq_find [DecidableEq κ] {x : Index κ β} (h : x.Sound) (k : κ) :
    x.get? k = Entries.find x.entries k := by
  apply Option.ext
  intro v
  rw [Entries.find_eq_some_iff h.nodup_keys, h.mem_entries_iff]

/-! ### Entries after a write -/

theorem Sound.entries_insert [DecidableEq κ] {x : Index κ β} (h : x.Sound) (k : κ) (v : β) :
    (x.insert k v).entries = Entries.put x.entries k v := by
  have hf := h.get?_eq_find k
  rw [get?] at hf
  rw [Index.insert]
  split
  · rename_i place hp
    obtain ⟨w, hw⟩ := (h.place_iff k place).mp hp
    have hk : k ∈ x.entries.map Prod.fst := by
      rw [← Entries.find_isSome, ← hf, hp]
      simp [hw]
    rw [Entries.put_of_mem h.nodup_keys hk, entries, Slots.toList_insert_known hw, entries,
      List.map_map, List.map_map]
    refine List.map_congr_left fun e he => ?_
    have hk := h.place_eq_iff hp ((Slots.mem_toList_iff ..).mp he)
    simp only [Function.comp_apply, hk]
    split <;> rfl
  · rename_i hp
    have hk : k ∉ x.entries.map Prod.fst := by
      rw [← Entries.find_isSome, ← hf, hp]
      simp
    rw [Entries.put_of_not_mem hk, entries, Slots.toList_insert_last h.place_lt, entries]
    simp

theorem Sound.entries_erase [DecidableEq κ] {x : Index κ β} (h : x.Sound) (k : κ) :
    (x.erase k).entries = x.entries.filter fun e => e.1 ≠ k := by
  have hf := h.get?_eq_find k
  rw [get?] at hf
  rw [Index.erase]
  split
  · rename_i hp
    have hk : k ∉ x.entries.map Prod.fst := by
      rw [← Entries.find_isSome, ← hf, hp]
      simp
    rw [List.filter_eq_self.mpr]
    grind
  · rename_i place hp
    obtain ⟨w, hw⟩ := (h.place_iff k place).mp hp
    rw [entries, Slots.toList_erase, entries, List.filter_map]
    congr 1
    refine List.filter_congr fun e he => ?_
    have hk := h.place_eq_iff hp ((Slots.mem_toList_iff ..).mp he)
    simp [hk]

/-! ### Soundness after a write -/

variable [Std.TransOrd κ]

theorem sound_empty : (empty : Index κ β).Sound :=
  ⟨by simp [empty], by simp [empty]⟩

variable [Std.LawfulEqOrd κ]

theorem Sound.insert {x : Index κ β} (h : x.Sound) (k : κ) (v : β) : (x.insert k v).Sound := by
  have hi := h.place_iff
  have hl := h.place_lt
  rw [Index.insert]
  split
  · rename_i place hp
    obtain ⟨w, hw⟩ := (hi k place).mp hp
    constructor
    · intro j q
      simp only [Std.TreeMap.getElem?_insert, Nat.compare_eq_eq, hi j q]
      grind
    · intro q e
      simp only [Std.TreeMap.getElem?_insert, Nat.compare_eq_eq]
      grind
  · rename_i hp
    constructor
    · intro j q
      have hj := hi j q
      simp only [Std.TreeMap.getElem?_insert, Nat.compare_eq_eq]
      by_cases hk : k = j
      · subst hk
        rw [if_pos Std.ReflCmp.compare_self]
        by_cases hq : x.next = q
        · exact iff_of_true (congrArg some hq) ⟨v, if_pos hq⟩
        · rw [if_neg hq, ← hj, hp]
          simp [hq]
      · rw [if_neg (mt Std.LawfulEqOrd.eq_of_compare hk)]
        grind
    · intro q e
      simp only [Std.TreeMap.getElem?_insert, Nat.compare_eq_eq]
      grind

theorem Sound.erase {x : Index κ β} (h : x.Sound) (k : κ) : (x.erase k).Sound := by
  have hi := h.place_iff
  have hl := h.place_lt
  rw [Index.erase]
  split
  · exact h
  · rename_i place hp
    obtain ⟨w, hw⟩ := (hi k place).mp hp
    constructor
    · intro j q
      have := hi j q
      simp only [Std.TreeMap.getElem?_erase, Nat.compare_eq_eq]
      grind
    · intro q e
      simp only [Std.TreeMap.getElem?_erase, Nat.compare_eq_eq]
      grind

omit [Std.TransOrd κ] [Std.LawfulEqOrd κ] in
theorem Sound.map {x : Index κ β} (h : x.Sound) (f : κ → β → β) : (x.map f).Sound := by
  constructor
  · intro k place
    simp only [Index.map, h.place_iff, Std.TreeMap.getElem?_map, Option.map_eq_some_iff]
    grind
  · intro place e
    simp only [Index.map, Std.TreeMap.getElem?_map, Option.map_eq_some_iff]
    rintro ⟨d, hd, _⟩
    exact h.place_lt place d hd

end Index

end Datacenter
