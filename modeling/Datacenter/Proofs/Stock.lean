import Datacenter.Resources

/-!
# Amounts in words

Memory, bandwidth and storage are counted in words. Read as natural numbers, a sum that is no fault
is exact, a difference stops at zero, and a demand without a shortage is at most what is free.
-/

namespace Datacenter

/-! ### Checked sequences -/

namespace Checked

variable {β γ : Type}

theorem bind_eq_ok_iff (x : Checked β) (f : β → Checked γ) (c : γ) :
    (x >>= f) = .ok c ↔ ∃ b, x = .ok b ∧ f b = .ok c := by
  cases x with
  | ok b => simp [bind, Except.bind]
  | error e => simp [bind, Except.bind]

theorem map_eq_ok_iff (f : β → γ) (x : Checked β) (c : γ) :
    (f <$> x) = .ok c ↔ ∃ b, x = .ok b ∧ f b = c := by
  cases x with
  | ok b => simp [Functor.map, Except.map]
  | error e => simp [Functor.map, Except.map]

theorem ok_bind (b : β) (f : β → Checked γ) : ((.ok b : Checked β) >>= f) = f b := rfl

theorem pure_eq_ok (b : β) : (pure b : Checked β) = .ok b := rfl

theorem pure_pair_eq_ok_iff {b b' : β} {c c' : γ} :
    (pure (b, c) : Checked (β × γ)) = .ok (b', c') ↔ b = b' ∧ c = c' := by
  rw [pure_eq_ok, Except.ok.injEq, Prod.mk.injEq]

theorem eq_ok_of_any {ε : Type} {x : Except ε β} {test : β → Bool} (h : x.toOption.any test = true) :
    ∃ b, x = .ok b ∧ test b = true := by
  cases x with
  | ok b => exact ⟨b, rfl, h⟩
  | error e => cases h

/-- What is known of each value is known of the list of all of them. -/
theorem mapM_eq_ok {δ : Type} {f : β → Checked γ} {g : γ → δ} {k : β → δ} {xs : List β}
    (hf : ∀ x ∈ xs, ∃ y, f x = .ok y ∧ g y = k x) :
    ∃ ys, xs.mapM f = .ok ys ∧ ys.map g = xs.map k := by
  induction xs with
  | nil => exact ⟨[], rfl, rfl⟩
  | cons x xs ih =>
    obtain ⟨⟨y, hy, hg⟩, hrest⟩ := List.forall_mem_cons.mp hf
    obtain ⟨ys, hys, hmap⟩ := ih hrest
    refine ⟨y :: ys, ?_, ?_⟩
    · rw [List.mapM_cons, hy, ok_bind, hys]
      rfl
    · rw [List.map_cons, List.map_cons, hg, hmap]

end Checked

/-! ### Words -/

theorem addWords_eq_ok {a b : UInt64} (h : a.toNat + b.toNat < UInt64.size) :
    ∃ c, addWords a b = .ok c ∧ c.toNat = a.toNat + b.toNat := by
  have hc : addWords a b = .ok (a + b) := by rw [addWords, if_pos h]
  exact ⟨a + b, hc, (addWords_eq_ok_iff a b (a + b)).mp hc⟩

/-- Dimensions that are counted in words. -/
inductive Stock where
  | memory
  | bandwidth
  | storage
  deriving DecidableEq

namespace Resources

variable {α : Type}

/-- The amount in a dimension that is counted in words. -/
def stock (r : Resources α) : Stock → Nat
  | .memory => r.ram.toNat
  | .bandwidth => r.bandwidth.toNat
  | .storage => r.storage.toNat

theorem stock_lt (r : Resources α) (k : Stock) : r.stock k < UInt64.size := by
  cases k with
  | memory => exact r.ram.toNat_lt_size
  | bandwidth => exact r.bandwidth.toNat_lt_size
  | storage => exact r.storage.toNat_lt_size

theorem eq_of_stock_eq {a b : Resources α} (hm : a.mips = b.mips)
    (hs : ∀ k, a.stock k = b.stock k) : a = b := by
  have hram : a.ram = b.ram := UInt64.toNat_inj.mp (hs .memory)
  have hbandwidth : a.bandwidth = b.bandwidth := UInt64.toNat_inj.mp (hs .bandwidth)
  have hstorage : a.storage = b.storage := UInt64.toNat_inj.mp (hs .storage)
  cases a
  cases b
  simp only [mk.injEq] at *
  exact ⟨hm, hram, hbandwidth, hstorage⟩

variable [Scalar α]

@[simp] theorem stock_zero (k : Stock) : (zero : Resources α).stock k = 0 := by
  cases k <;> rfl

theorem add_eq_ok_iff (a b c : Resources α) :
    a.add b = .ok c ↔ c.mips = a.mips + b.mips ∧ ∀ k, c.stock k = a.stock k + b.stock k := by
  constructor
  · intro h
    simp only [add, Checked.bind_eq_ok_iff, addWords_eq_ok_iff, Checked.pure_eq_ok] at h
    obtain ⟨ram, hram, bandwidth, hbandwidth, storage, hstorage, hc⟩ := h
    cases hc
    refine ⟨rfl, fun k => ?_⟩
    cases k with
    | memory => exact hram
    | bandwidth => exact hbandwidth
    | storage => exact hstorage
  · rintro ⟨hm, hs⟩
    have hram := (addWords_eq_ok_iff a.ram b.ram c.ram).mpr (hs .memory)
    have hbandwidth := (addWords_eq_ok_iff a.bandwidth b.bandwidth c.bandwidth).mpr (hs .bandwidth)
    have hstorage := (addWords_eq_ok_iff a.storage b.storage c.storage).mpr (hs .storage)
    rw [add, hram, hbandwidth, hstorage]
    simp only [Checked.ok_bind, Checked.pure_eq_ok, ← hm]

theorem add_eq_ok {a b : Resources α} (h : ∀ k, a.stock k + b.stock k < UInt64.size) :
    ∃ c, a.add b = .ok c := by
  obtain ⟨ram, hram, -⟩ := addWords_eq_ok (h .memory)
  obtain ⟨bandwidth, hbandwidth, -⟩ := addWords_eq_ok (h .bandwidth)
  obtain ⟨storage, hstorage, -⟩ := addWords_eq_ok (h .storage)
  refine ⟨⟨a.mips + b.mips, ram, bandwidth, storage⟩, ?_⟩
  rw [add, hram, hbandwidth, hstorage]
  rfl

@[simp] theorem stock_sub (a b : Resources α) (k : Stock) :
    (a.sub b).stock k = a.stock k - b.stock k := by
  cases k with
  | memory => exact toNat_subWords a.ram b.ram
  | bandwidth => exact toNat_subWords a.bandwidth b.bandwidth
  | storage => exact toNat_subWords a.storage b.storage

@[simp] theorem mips_sub (a b : Resources α) :
    (a.sub b).mips = Scalar.larger (a.mips - b.mips) 0 := rfl

theorem shortage_eq_none_iff (free demand : Resources α) :
    free.shortage demand = none ↔
      ¬free.mips + Scalar.epsilon < demand.mips ∧ ∀ k, demand.stock k ≤ free.stock k := by
  have hall : (∀ k, demand.stock k ≤ free.stock k) ↔
      ¬free.ram < demand.ram ∧ ¬free.bandwidth < demand.bandwidth
        ∧ ¬free.storage < demand.storage := by
    simp only [UInt64.lt_iff_toNat_lt, Nat.not_lt]
    constructor
    · intro h
      exact ⟨h .memory, h .bandwidth, h .storage⟩
    · rintro ⟨hram, hbandwidth, hstorage⟩ k
      cases k with
      | memory => exact hram
      | bandwidth => exact hbandwidth
      | storage => exact hstorage
  rw [hall, shortage]
  by_cases hm : free.mips + Scalar.epsilon < demand.mips
  · simp [hm]
  · by_cases hram : free.ram < demand.ram
    · simp [hm, hram]
    · by_cases hbandwidth : free.bandwidth < demand.bandwidth
      · simp [hm, hram, hbandwidth]
      · by_cases hstorage : free.storage < demand.storage
        · simp [hm, hram, hbandwidth, hstorage]
        · simp [hm, hram, hbandwidth, hstorage]

/-- Where the words of a demand fit, only the rate can be short. -/
theorem eq_cpu_of_shortage {free demand : Resources α} {d : Dimension}
    (hs : free.shortage demand = some d) (hfit : ∀ k, demand.stock k ≤ free.stock k) :
    d = .cpu := by
  by_cases hm : free.mips + Scalar.epsilon < demand.mips
  · rw [shortage, if_pos hm] at hs
    exact (Option.some.inj hs).symm
  · rw [(shortage_eq_none_iff free demand).mpr ⟨hm, hfit⟩] at hs
    cases hs

end Resources

end Datacenter
