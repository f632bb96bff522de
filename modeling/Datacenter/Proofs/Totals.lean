import Mathlib.Algebra.BigOperators.Group.List.Basic
import Mathlib.Algebra.Order.BigOperators.Group.List
import Mathlib.Data.List.Nodup
import Datacenter.Table

/-!
# Totals over tables

What the entries of a table add up to, each of them weighed by a function of its key and its value,
and how a write changes that sum.

Main statements: `total_insert_new`, `total_insert_known`, `total_erase`, `total_of_parts` and
`total_le_total`.
-/

namespace Datacenter

/-! ### Totals over entries -/

namespace Entries

variable {κ β M : Type} [AddCommMonoid M]

def total (f : κ → β → M) (es : List (κ × β)) : M := (es.map fun e => f e.1 e.2).sum

theorem total_cons (f : κ → β → M) (e : κ × β) (es : List (κ × β)) :
    total f (e :: es) = f e.1 e.2 + total f es := by
  simp only [total, List.map_cons, List.sum_cons]

theorem total_congr {f g : κ → β → M} {es : List (κ × β)}
    (h : ∀ e ∈ es, f e.1 e.2 = g e.1 e.2) : total f es = total g es := by
  rw [total, total, List.map_congr_left h]

variable [DecidableEq κ]

theorem find_eq_none_iff (es : List (κ × β)) (k : κ) :
    find es k = none ↔ k ∉ es.map Prod.fst := by
  rw [← find_isSome, Bool.not_eq_true, Option.isSome_eq_false_iff, Option.isNone_iff_eq_none]

theorem total_put_new (f : κ → β → M) {es : List (κ × β)} {k : κ} (h : find es k = none)
    (v : β) : total f (put es k v) = total f es + f k v := by
  have hk := (find_eq_none_iff es k).mp h
  rw [put_of_not_mem hk]
  simp [total]

theorem total_put_known (f : κ → β → M) {es : List (κ × β)} {k : κ} {w : β}
    (h : find es k = some w) (v : β) : total f (put es k v) + f k w = total f es + f k v := by
  induction es with
  | nil => simp [find] at h
  | cons e es ih =>
    rw [find] at h
    rw [put]
    split at h
    · rename_i he
      cases h
      rw [if_pos he, total_cons, total_cons, he]
      rw [add_comm (f k _), add_right_comm, add_comm (total f es)]
    · rename_i he
      rw [if_neg he, total_cons, total_cons, add_assoc, ih h, add_assoc]

/-- A weighing that differs from another one at a single key differs there in the sum. -/
theorem total_change {f g : κ → β → M} {es : List (κ × β)} (hd : (es.map Prod.fst).Nodup) {k : κ}
    {w : β} (h : find es k = some w) (hfg : ∀ e ∈ es, e.1 ≠ k → f e.1 e.2 = g e.1 e.2) :
    total g es + f k w = total f es + g k w := by
  induction es with
  | nil => simp [find] at h
  | cons e es ih =>
    rw [List.map_cons, List.nodup_cons] at hd
    rw [find] at h
    rw [total_cons, total_cons]
    split at h
    · rename_i he
      cases h
      have hrest : total f es = total g es := by
        refine total_congr fun x hx => hfg x (List.mem_cons_of_mem _ hx) ?_
        intro hk
        exact hd.1 (he ▸ hk ▸ List.mem_map_of_mem hx)
      rw [hrest, he, add_comm (g k e.2), add_right_comm, add_comm (total g es)]
    · rename_i he
      have hrest := ih hd.2 h fun x hx => hfg x (List.mem_cons_of_mem _ hx)
      rw [hfg e List.mem_cons_self he, add_assoc, hrest, add_assoc]

theorem total_filter (f : κ → β → M) {es : List (κ × β)} (hd : (es.map Prod.fst).Nodup) {k : κ}
    {w : β} (h : find es k = some w) :
    total f (es.filter fun e => e.1 ≠ k) + f k w = total f es := by
  induction es with
  | nil => simp [find] at h
  | cons e es ih =>
    rw [List.map_cons, List.nodup_cons] at hd
    rw [find] at h
    split at h
    · rename_i he
      cases h
      have hall : es.filter (fun e => e.1 ≠ k) = es := by
        refine List.filter_eq_self.mpr fun x hx => ?_
        have hne : x.1 ≠ k := fun hk => hd.1 (he ▸ hk ▸ List.mem_map_of_mem hx)
        simpa using hne
      rw [List.filter_cons_of_neg (by simpa using he), hall, total_cons, he, add_comm]
    · rename_i he
      rw [List.filter_cons_of_pos (by simpa using he), total_cons, total_cons, add_assoc,
        ih hd.2 h]

omit [DecidableEq κ] in
theorem total_nonneg [PartialOrder M] [IsOrderedAddMonoid M] {f : κ → β → M}
    {es : List (κ × β)} (h : ∀ e ∈ es, 0 ≤ f e.1 e.2) : 0 ≤ total f es := by
  refine List.sum_nonneg fun x hx => ?_
  obtain ⟨e, he, rfl⟩ := List.mem_map.mp hx
  exact h e he

/-! ### Parts of entries -/

section

variable {γ : Type}

omit [DecidableEq κ] in
theorem total_add (f g : κ → β → M) (es : List (κ × β)) :
    total (fun k v => f k v + g k v) es = total f es + total g es := List.sum_map_add

/-- The entries of which a part is kept, each with that part. -/
def parts (part : κ → γ → Option β) (es : List (κ × γ)) : List (κ × β) :=
  es.filterMap fun e => (part e.1 e.2).map fun v => (e.1, v)

omit [DecidableEq κ] in
theorem keys_parts_sublist (part : κ → γ → Option β) (es : List (κ × γ)) :
    ((parts part es).map Prod.fst).Sublist (es.map Prod.fst) := by
  induction es with
  | nil => exact List.Sublist.slnil
  | cons e es ih =>
    simp only [parts, List.filterMap_cons, List.map_cons]
    cases part e.1 e.2 with
    | none => exact ih.cons e.1
    | some v => exact ih.cons_cons e.1

omit [DecidableEq κ] in
theorem total_parts (part : κ → γ → Option β) (f : κ → β → M) (es : List (κ × γ)) :
    total f (parts part es) = total (fun k c => (part k c).elim 0 (f k)) es := by
  induction es with
  | nil => rfl
  | cons e es ih =>
    rw [total_cons, ← ih, parts, List.filterMap_cons]
    cases part e.1 e.2 with
    | none => exact (zero_add _).symm
    | some v => exact total_cons f (e.1, v) _

end

end Entries

/-! ### Totals over tables -/

namespace Table

variable {κ β M : Type} [Ord κ] [AddCommMonoid M]

/-- What the entries add up to. -/
def total (f : κ → β → M) (t : Table κ β) : M := Entries.total f t.entries

theorem total_of_entries_eq_nil (f : κ → β → M) {t : Table κ β} (h : t.entries = []) :
    t.total f = 0 := by
  rw [total, h]
  rfl

theorem entries_eq_nil_of_isEmpty {t : Table κ β} (h : t.isEmpty = true) : t.entries = [] := by
  rw [isEmpty, size_eq, beq_iff_eq] at h
  exact List.eq_nil_of_length_eq_zero h

theorem total_empty [Std.TransOrd κ] (f : κ → β → M) : (∅ : Table κ β).total f = 0 :=
  total_of_entries_eq_nil f entries_empty

section

variable [DecidableEq κ]

@[simp] theorem get?_emptyCollection [Std.TransOrd κ] (k : κ) :
    (∅ : Table κ β).get? k = none := get?_empty k

omit [DecidableEq κ] in
theorem nodup_entries (t : Table κ β) : (t.entries.map Prod.fst).Nodup :=
  t.keys_eq ▸ t.nodup_keys

theorem mem_entries_iff (t : Table κ β) (k : κ) (v : β) :
    (k, v) ∈ t.entries ↔ t.get? k = some v := by
  rw [get?_eq_find, Entries.find_eq_some_iff t.nodup_entries]

theorem mem_keys_iff (t : Table κ β) (k : κ) : k ∈ t.keys ↔ ∃ v, t.get? k = some v := by
  rw [← contains_iff, contains, Option.isSome_iff_exists]

theorem mem_values_iff (t : Table κ β) (v : β) : v ∈ t.values ↔ ∃ k, t.get? k = some v := by
  simp only [values_eq, List.mem_map, Prod.exists, exists_eq_right, mem_entries_iff]

theorem total_congr {f g : κ → β → M} {t : Table κ β}
    (h : ∀ k v, t.get? k = some v → f k v = g k v) : t.total f = t.total g :=
  Entries.total_congr fun e he => h e.1 e.2 ((t.mem_entries_iff e.1 e.2).mp he)

/-- A weighing that differs from another one at a single key differs there in the sum. -/
theorem total_change {f g : κ → β → M} {t : Table κ β} {k : κ} {w : β} (h : t.get? k = some w)
    (hfg : ∀ j v, j ≠ k → t.get? j = some v → f j v = g j v) :
    t.total g + f k w = t.total f + g k w := by
  rw [get?_eq_find] at h
  refine Entries.total_change t.nodup_entries h fun e he hk => ?_
  exact hfg e.1 e.2 hk ((t.mem_entries_iff e.1 e.2).mp he)

variable [Std.TransOrd κ] [Std.LawfulEqOrd κ]

theorem total_insert_new (f : κ → β → M) {t : Table κ β} {k : κ} (h : t.get? k = none) (v : β) :
    (t.insert k v).total f = t.total f + f k v := by
  rw [get?_eq_find] at h
  rw [total, entries_insert, Entries.total_put_new f h, total]

theorem total_insert_known (f : κ → β → M) {t : Table κ β} {k : κ} {w : β}
    (h : t.get? k = some w) (v : β) :
    (t.insert k v).total f + f k w = t.total f + f k v := by
  rw [get?_eq_find] at h
  rw [total, entries_insert, Entries.total_put_known f h, total]

theorem total_erase (f : κ → β → M) {t : Table κ β} {k : κ} {w : β} (h : t.get? k = some w) :
    (t.erase k).total f + f k w = t.total f := by
  rw [get?_eq_find] at h
  rw [total, entries_erase, Entries.total_filter f t.nodup_entries h, total]

end

/-! ### Tables that hold parts of others -/

section

theorem total_add (f g : κ → β → M) (t : Table κ β) :
    t.total (fun k v => f k v + g k v) = t.total f + t.total g := Entries.total_add f g t.entries

variable {γ : Type} [DecidableEq κ]

/-- A table that holds parts of what another one holds adds up to the parts there. -/
theorem total_of_parts {t : Table κ β} {u : Table κ γ} (part : κ → γ → Option β)
    (h : ∀ k, t.get? k = (u.get? k).bind (part k)) (f : κ → β → M) :
    t.total f = u.total fun k c => (part k c).elim 0 (f k) := by
  have hnodup : (Entries.parts part u.entries).Nodup :=
    List.Nodup.of_map Prod.fst ((Entries.keys_parts_sublist part u.entries).nodup u.nodup_entries)
  have hperm : t.entries.Perm (Entries.parts part u.entries) := by
    have hentries := List.Nodup.of_map Prod.fst t.nodup_entries
    refine (List.perm_ext_iff_of_nodup hentries hnodup).mpr fun e => ?_
    rw [show e = (e.1, e.2) from rfl, mem_entries_iff, h, Option.bind_eq_some_iff, Entries.parts,
      List.mem_filterMap]
    constructor
    · rintro ⟨c, hc, hpart⟩
      exact ⟨(e.1, c), (u.mem_entries_iff e.1 c).mpr hc, by rw [hpart, Option.map_some]⟩
    · rintro ⟨x, hx, hmap⟩
      obtain ⟨v, hpart, heq⟩ := Option.map_eq_some_iff.mp hmap
      obtain ⟨hk, rfl⟩ := Prod.mk.inj heq
      exact ⟨x.2, hk ▸ (u.mem_entries_iff x.1 x.2).mp hx, hk ▸ hpart⟩
  rw [total, total, ← Entries.total_parts]
  exact (hperm.map fun e => f e.1 e.2).sum_eq

theorem total_eq_of_get? {s t : Table κ β} (h : ∀ k, s.get? k = t.get? k) (f : κ → β → M) :
    s.total f = t.total f :=
  total_of_parts (fun _ v => some v) (fun k => by rw [h k, Option.bind_fun_some]) f

omit [AddCommMonoid M] in
theorem size_eq_of_get? {s t : Table κ β} (h : ∀ k, s.get? k = t.get? k) : s.size = t.size := by
  have hcount : ∀ u : Table κ β, u.size = u.total fun _ _ => 1 := by
    intro u
    rw [size_eq, total, Entries.total]
    simp
  rw [hcount, hcount, total_eq_of_get? h]

end

/-! ### Totals in order -/

section

variable [PartialOrder M] [IsOrderedAddMonoid M]

theorem total_nonneg [DecidableEq κ] {f : κ → β → M} {t : Table κ β}
    (h : ∀ k v, t.get? k = some v → 0 ≤ f k v) : 0 ≤ t.total f :=
  Entries.total_nonneg fun e he => h e.1 e.2 ((t.mem_entries_iff e.1 e.2).mp he)

theorem total_mono [DecidableEq κ] {f g : κ → β → M} {t : Table κ β}
    (h : ∀ k v, t.get? k = some v → f k v ≤ g k v) : t.total f ≤ t.total g := by
  refine List.sum_le_sum fun e he => ?_
  exact h e.1 e.2 ((t.mem_entries_iff e.1 e.2).mp he)

theorem le_total [DecidableEq κ] {f : κ → β → M} {t : Table κ β}
    (h : ∀ k v, t.get? k = some v → 0 ≤ f k v) {k : κ} {v : β} (hk : t.get? k = some v) :
    f k v ≤ t.total f := by
  refine List.single_le_sum (fun x hx => ?_) _ ?_
  · obtain ⟨e, he, rfl⟩ := List.mem_map.mp hx
    exact h e.1 e.2 ((t.mem_entries_iff e.1 e.2).mp he)
  · exact List.mem_map.mpr ⟨(k, v), (t.mem_entries_iff k v).mpr hk, rfl⟩

/-- If each entry counts for nothing, or for at most what another table has for its key, the sum is
at most what that table adds up to. -/
theorem total_le_total [DecidableEq κ] [Std.TransOrd κ] [Std.LawfulEqOrd κ] {γ : Type}
    {f : κ → β → M} {g : κ → γ → M} {s : Table κ β} {t : Table κ γ}
    (hg : ∀ k w, t.get? k = some w → 0 ≤ g k w)
    (hle : ∀ k v, s.get? k = some v → f k v ≤ 0 ∨ ∃ w, t.get? k = some w ∧ f k v ≤ g k w) :
    s.total f ≤ t.total g := by
  have hentries : ∀ es : List (κ × β), (es.map Prod.fst).Nodup → ∀ t : Table κ γ,
      (∀ k w, t.get? k = some w → 0 ≤ g k w) →
      (∀ e ∈ es, f e.1 e.2 ≤ 0 ∨ ∃ w, t.get? e.1 = some w ∧ f e.1 e.2 ≤ g e.1 w) →
      Entries.total f es ≤ t.total g := by
    intro es
    induction es with
    | nil =>
      intro _ t hg _
      exact total_nonneg hg
    | cons e es ih =>
      intro hd t hg hle
      rw [List.map_cons, List.nodup_cons] at hd
      rw [Entries.total_cons]
      have hrest := fun x hx => hle x (List.mem_cons_of_mem e hx)
      rcases hle e List.mem_cons_self with hzero | ⟨w, hw, hfg⟩
      · have hsum := add_le_add hzero (ih hd.2 t hg hrest)
        rwa [zero_add] at hsum
      · -- What the other table has for this key is used up.
        rw [← total_erase g hw, add_comm]
        refine add_le_add (ih hd.2 (t.erase e.1) (fun k v hk => ?_) fun x hx => ?_) hfg
        · rw [get?_erase] at hk
          split at hk
          · cases hk
          · exact hg k v hk
        · have hne : x.1 ≠ e.1 := fun heq => hd.1 (heq ▸ List.mem_map_of_mem hx)
          rw [get?_erase, if_neg hne]
          exact hrest x hx
  exact hentries s.entries s.nodup_entries t hg fun e he =>
    hle e.1 e.2 ((s.mem_entries_iff e.1 e.2).mp he)

end

end Table

end Datacenter
