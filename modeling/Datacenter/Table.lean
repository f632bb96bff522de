import Datacenter.Table.Index

/-!
# Tables in insertion order

A table holds one value per key and lists its entries in the order in which their keys came in.
Writing to a key that is present keeps its place; erasing a key closes the gap. Entries are found by
an index, but tables are equal as soon as their entries are.

Main statements: `entries_insert` and `entries_erase` say what the entries are after a write,
`get?_insert` and `get?_erase` what a key holds, `insert_comm` and `erase_insert` how writes go
together, `keys_insert` what happens to the order.
-/

namespace Datacenter

/-- A sound index. -/
abbrev SoundIndex (κ β : Type) [Ord κ] := { x : Index κ β // x.Sound }

instance SoundIndex.sameEntries (κ β : Type) [Ord κ] : Setoid (SoundIndex κ β) where
  r x y := x.1.entries = y.1.entries
  iseqv := ⟨fun _ => rfl, Eq.symm, Eq.trans⟩

/-- Entries in insertion order, one per key. -/
def Table (κ β : Type) [Ord κ] : Type := Quotient (SoundIndex.sameEntries κ β)

namespace Table

variable {κ β : Type} [Ord κ]

/-! ### Entries -/

def entries : Table κ β → List (κ × β) := Quotient.lift (fun x => x.1.entries) fun _ _ h => h

@[ext] theorem ext {s t : Table κ β} (h : s.entries = t.entries) : s = t := by
  induction s using Quotient.inductionOn
  induction t using Quotient.inductionOn
  exact Quotient.sound h

def keys : Table κ β → List κ :=
  Quotient.lift (fun x => x.1.keys) fun x y h => by
    rw [x.1.keys_eq, y.1.keys_eq, h]

theorem keys_eq (t : Table κ β) : t.keys = t.entries.map Prod.fst := by
  induction t using Quotient.inductionOn with
  | h x => exact x.1.keys_eq

theorem nodup_keys (t : Table κ β) : t.keys.Nodup := by
  rw [keys_eq]
  induction t using Quotient.inductionOn with
  | h x => exact x.2.nodup_keys

def values : Table κ β → List β :=
  Quotient.lift (fun x => x.1.values) fun x y h => by
    rw [x.1.values_eq, y.1.values_eq, h]

theorem values_eq (t : Table κ β) : t.values = t.entries.map Prod.snd := by
  induction t using Quotient.inductionOn with
  | h x => exact x.1.values_eq

def size : Table κ β → Nat :=
  Quotient.lift (fun x => x.1.size) fun x y h => by
    rw [← x.1.length_entries, ← y.1.length_entries, h]

theorem size_eq (t : Table κ β) : t.size = t.entries.length := by
  induction t using Quotient.inductionOn with
  | h x => exact x.1.length_entries.symm

def isEmpty (t : Table κ β) : Bool := t.size == 0

/-! ### Look-up -/

def get? [DecidableEq κ] (t : Table κ β) (k : κ) : Option β :=
  Quotient.liftOn t (fun x => x.1.get? k) fun x y h => by
    rw [x.2.get?_eq_find, y.2.get?_eq_find, h]

theorem get?_eq_find [DecidableEq κ] (t : Table κ β) (k : κ) :
    t.get? k = Entries.find t.entries k := by
  induction t using Quotient.inductionOn with
  | h x => exact x.2.get?_eq_find k

def contains [DecidableEq κ] (t : Table κ β) (k : κ) : Bool := (t.get? k).isSome

theorem contains_iff [DecidableEq κ] (t : Table κ β) (k : κ) :
    t.contains k = true ↔ k ∈ t.keys := by
  rw [contains, get?_eq_find, Entries.find_isSome, keys_eq]

/-! ### Changes -/

/-- Changes all values. -/
def map (f : κ → β → β) (t : Table κ β) : Table κ β :=
  Quotient.liftOn t (fun x => Quotient.mk _ ⟨x.1.map f, x.2.map f⟩) fun x y h =>
    Quotient.sound <| by
      change (x.1.map f).entries = (y.1.map f).entries
      rw [x.1.entries_map, y.1.entries_map, h]

variable [Std.TransOrd κ]

def empty : Table κ β := Quotient.mk _ ⟨Index.empty, Index.sound_empty⟩

instance : EmptyCollection (Table κ β) := ⟨empty⟩

instance : Inhabited (Table κ β) := ⟨empty⟩

@[simp] theorem entries_empty : (empty : Table κ β).entries = [] := rfl

variable [Std.LawfulEqOrd κ] [DecidableEq κ]

def insert (t : Table κ β) (k : κ) (v : β) : Table κ β :=
  Quotient.liftOn t (fun x => Quotient.mk _ ⟨x.1.insert k v, x.2.insert k v⟩) fun x y h =>
    Quotient.sound <| by
      change (x.1.insert k v).entries = (y.1.insert k v).entries
      rw [x.2.entries_insert, y.2.entries_insert, h]

def erase (t : Table κ β) (k : κ) : Table κ β :=
  Quotient.liftOn t (fun x => Quotient.mk _ ⟨x.1.erase k, x.2.erase k⟩) fun x y h =>
    Quotient.sound <| by
      change (x.1.erase k).entries = (y.1.erase k).entries
      rw [x.2.entries_erase, y.2.entries_erase, h]

/-! ### Entries after a change -/

omit [Std.TransOrd κ] [Std.LawfulEqOrd κ] [DecidableEq κ] in
theorem entries_map (f : κ → β → β) (t : Table κ β) :
    (t.map f).entries = t.entries.map fun e => (e.1, f e.1 e.2) := by
  induction t using Quotient.inductionOn with
  | h x => exact x.1.entries_map f

theorem entries_insert (t : Table κ β) (k : κ) (v : β) :
    (t.insert k v).entries = Entries.put t.entries k v := by
  induction t using Quotient.inductionOn with
  | h x => exact x.2.entries_insert k v

theorem entries_erase (t : Table κ β) (k : κ) :
    (t.erase k).entries = t.entries.filter fun e => e.1 ≠ k := by
  induction t using Quotient.inductionOn with
  | h x => exact x.2.entries_erase k

/-! ### Reading after a change -/

omit [Std.LawfulEqOrd κ] in
@[simp] theorem get?_empty (k : κ) : (empty : Table κ β).get? k = none := by
  rw [get?_eq_find, entries_empty, Entries.find]

omit [Std.TransOrd κ] [Std.LawfulEqOrd κ] in
@[simp] theorem get?_map (f : κ → β → β) (t : Table κ β) (k : κ) :
    (t.map f).get? k = (t.get? k).map (f k) := by
  rw [get?_eq_find, entries_map, Entries.find_map, get?_eq_find]

@[simp] theorem get?_insert (t : Table κ β) (k : κ) (v : β) (j : κ) :
    (t.insert k v).get? j = if j = k then some v else t.get? j := by
  rw [get?_eq_find, entries_insert, Entries.find_put, get?_eq_find]

@[simp] theorem get?_erase (t : Table κ β) (k j : κ) :
    (t.erase k).get? j = if j = k then none else t.get? j := by
  rw [get?_eq_find, entries_erase, Entries.find_filter, get?_eq_find]

/-! ### Writes after writes -/

theorem insert_insert (t : Table κ β) (k : κ) (v w : β) :
    (t.insert k v).insert k w = t.insert k w := by
  ext1
  rw [entries_insert, entries_insert, entries_insert, Entries.put_put]

theorem insert_of_get? {t : Table κ β} {k : κ} {v : β} (h : t.get? k = some v) :
    t.insert k v = t := by
  ext1
  rw [entries_insert, Entries.put_of_find ((get?_eq_find t k).symm.trans h)]

theorem insert_comm {t : Table κ β} {j k : κ} {u : β} (hne : j ≠ k) (h : t.get? j = some u)
    (v w : β) : (t.insert k v).insert j w = (t.insert j w).insert k v := by
  ext1
  simp only [entries_insert]
  exact Entries.put_comm hne ((get?_eq_find t j).symm.trans h) v w

theorem erase_insert {t : Table κ β} {k : κ} (h : t.get? k = none) (v : β) :
    (t.insert k v).erase k = t := by
  ext1
  rw [entries_erase, entries_insert, Entries.filter_put ((get?_eq_find t k).symm.trans h)]

/-! ### The order after a change -/

theorem keys_insert (t : Table κ β) (k : κ) (v : β) :
    (t.insert k v).keys = if k ∈ t.keys then t.keys else t.keys ++ [k] := by
  rw [keys_eq, entries_insert, Entries.keys_put, keys_eq]

end Table

end Datacenter
