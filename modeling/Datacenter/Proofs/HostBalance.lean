import Mathlib.Algebra.Order.Ring.Nat
import Datacenter.Proofs.HostSteps
import Datacenter.Proofs.Totals

/-!
# Balanced hosts

In the dimensions that are counted in words, the totals of a host are the sums of its entries, and
both together stay within its capacity. Every step keeps this, so no total drifts, no difference
stops short and no sum overflows.

Main statements: `Balanced.step`, `Balanced.admit_isSettled` and `Balanced.resize_isSettled`.
-/

namespace Datacenter.Host

variable {α : Type} [Scalar α]

/-- The sum of what residents have in a dimension. -/
def residentStock (host : Host α) (k : Stock) : Nat := host.resident.total fun _ d => d.stock k

/-- The sum of what is kept for incoming VMs in a dimension. -/
def incomingStock (host : Host α) (k : Stock) : Nat := host.incoming.total fun _ d => d.stock k

structure Balanced (host : Host α) : Prop where
  apart : ∀ v, host.resident.get? v = none ∨ host.incoming.get? v = none
  resident : ∀ k, host.residentTotal.stock k = host.residentStock k
  incoming : ∀ k, host.incomingTotal.stock k = host.incomingStock k
  within : ∀ k, host.residentTotal.stock k + host.incomingTotal.stock k ≤ host.capacity.stock k

namespace Balanced

variable {host host' : Host α} {v : VmId} {demand : Resources α}

theorem create (id : HostId) (spec : HostSpec α) : (Host.create id spec).Balanced where
  apart _ := .inl (Table.get?_emptyCollection _)
  resident k := by
    rw [residentStock, Host.create, Table.total_empty]
    exact Resources.stock_zero k
  incoming k := by
    rw [incomingStock, Host.create, Table.total_empty]
    exact Resources.stock_zero k
  within k := by
    have hz : (Resources.zero : Resources α).stock k = 0 := Resources.stock_zero k
    simp only [Host.create, hz]
    exact Nat.zero_le _

/-! ### Entries and totals -/

theorem resident_eq_none (h : host.Balanced) (hv : host.incoming.get? v = some demand) :
    host.resident.get? v = none := by
  rcases h.apart v with hr | hi
  · exact hr
  · rw [hv] at hi
    cases hi

theorem resident_le (h : host.Balanced) (hv : host.resident.get? v = some demand) (k : Stock) :
    demand.stock k ≤ host.residentTotal.stock k := by
  rw [h.resident, residentStock]
  exact Table.le_total (f := fun _ d => d.stock k) (fun _ _ _ => Nat.zero_le _) hv

theorem incoming_le (h : host.Balanced) (hv : host.incoming.get? v = some demand) (k : Stock) :
    demand.stock k ≤ host.incomingTotal.stock k := by
  rw [h.incoming, incomingStock]
  exact Table.le_total (f := fun _ d => d.stock k) (fun _ _ _ => Nat.zero_le _) hv

theorem allocated (h : host.Balanced) :
    ∃ allocated, host.allocated = .ok allocated
      ∧ allocated.mips = host.residentTotal.mips + host.incomingTotal.mips
      ∧ ∀ k, allocated.stock k = host.residentTotal.stock k + host.incomingTotal.stock k := by
  have hfit : ∀ k, host.residentTotal.stock k + host.incomingTotal.stock k < UInt64.size :=
    fun k => Nat.lt_of_le_of_lt (h.within k) (host.capacity.stock_lt k)
  obtain ⟨allocated, ha⟩ := Resources.add_eq_ok hfit
  obtain ⟨hm, hs⟩ := (Resources.add_eq_ok_iff _ _ _).mp ha
  exact ⟨allocated, ha, hm, hs⟩

theorem available (h : host.Balanced) :
    ∃ available, host.available = .ok available
      ∧ ∀ k, available.stock k + host.residentTotal.stock k + host.incomingTotal.stock k
        = host.capacity.stock k := by
  obtain ⟨allocated, ha, -, hs⟩ := h.allocated
  refine ⟨host.capacity.sub allocated, ?_, fun k => ?_⟩
  · rw [Host.available, ha]
    rfl
  · have hw := h.within k
    rw [Resources.stock_sub, hs]
    omega

/-- A demand that is not short fits beside both totals. -/
theorem room (h : host.Balanced) (hs : host.shortage demand = .ok none) (k : Stock) :
    host.residentTotal.stock k + host.incomingTotal.stock k + demand.stock k
      ≤ host.capacity.stock k := by
  obtain ⟨allocated, ha, hnone⟩ := (shortage_eq_none_iff host demand).mp hs
  obtain ⟨allocated', ha', -, hsum⟩ := h.allocated
  rw [ha, Except.ok.injEq] at ha'
  subst ha'
  have hle := ((Resources.shortage_eq_none_iff _ _).mp hnone).2 k
  have hw := h.within k
  rw [Resources.stock_sub, hsum] at hle
  omega

theorem stock_eq_zero_of_isIdle (h : host.Balanced) (hidle : host.isIdle = true) (k : Stock) :
    host.residentTotal.stock k = 0 ∧ host.incomingTotal.stock k = 0 := by
  rw [isIdle, Bool.and_eq_true] at hidle
  rw [h.resident, h.incoming, residentStock, incomingStock,
    Table.total_of_entries_eq_nil _ (Table.entries_eq_nil_of_isEmpty hidle.1),
    Table.total_of_entries_eq_nil _ (Table.entries_eq_nil_of_isEmpty hidle.2)]
  exact ⟨rfl, rfl⟩

/-! ### Differences -/

theorem stock_release (h : host.Balanced) (hv : host.resident.get? v = some demand) (k : Stock) :
    (host.release v).residentTotal.stock k + demand.stock k = host.residentTotal.stock k := by
  have hle := h.resident_le hv k
  rw [release_of_get? hv]
  change (host.residentTotal.sub demand).stock k + demand.stock k = host.residentTotal.stock k
  rw [Resources.stock_sub]
  omega

theorem stock_cancel (h : host.Balanced) (hv : host.incoming.get? v = some demand) (k : Stock) :
    (host.cancel v).incomingTotal.stock k + demand.stock k = host.incomingTotal.stock k := by
  have hle := h.incoming_le hv k
  rw [cancel_of_get? hv]
  change (host.incomingTotal.sub demand).stock k + demand.stock k = host.incomingTotal.stock k
  rw [Resources.stock_sub]
  omega

theorem stock_resize (h : host.Balanced) {current : Resources α}
    (hv : host.resident.get? v = some current) (hz : host.resize v demand = .done host')
    (k : Stock) :
    host'.residentTotal.stock k + current.stock k
      = host.residentTotal.stock k + demand.stock k := by
  obtain ⟨current', available, room, total, hv', -, -, -, ht, rfl⟩ :=
    (resize_eq_done_iff _ _ _ _).mp hz
  rw [hv, Option.some.injEq] at hv'
  subst hv'
  have hle := h.resident_le hv k
  have hsum := ((Resources.add_eq_ok_iff _ _ _).mp ht).2 k
  rw [Resources.stock_sub] at hsum
  change total.stock k + current.stock k = host.residentTotal.stock k + demand.stock k
  omega

/-! ### Steps -/

theorem stock_insert {entries : Table VmId (Resources α)} {before total : Resources α} {k : Stock}
    (hbefore : before.stock k = entries.total fun _ d => d.stock k)
    (hv : entries.get? v = none) (ht : before.add demand = .ok total) :
    total.stock k = (entries.insert v demand).total fun _ d => d.stock k := by
  have hsum := ((Resources.add_eq_ok_iff _ _ _).mp ht).2 k
  have htotal := Table.total_insert_new (fun _ d => d.stock k) hv demand
  rw [htotal, hsum, hbefore]

theorem stock_erase {entries : Table VmId (Resources α)} {before : Resources α} {k : Stock}
    (hbefore : before.stock k = entries.total fun _ d => d.stock k)
    (hv : entries.get? v = some demand) :
    (before.sub demand).stock k = (entries.erase v).total fun _ d => d.stock k := by
  have htotal := Table.total_erase (fun _ d => d.stock k) hv
  rw [Resources.stock_sub]
  omega

theorem allocate (h : host.Balanced) (ha : host.allocate v demand = .done host') :
    host'.Balanced := by
  obtain ⟨hr, hi, hs, total, ht, rfl⟩ := (allocate_eq_done_iff _ _ _ _).mp ha
  have hsum := ((Resources.add_eq_ok_iff _ _ _).mp ht).2
  refine ⟨fun w => ?_, fun k => ?_, h.incoming, fun k => ?_⟩
  · by_cases hw : w = v
    · exact .inr (hw ▸ hi)
    · simpa [hw] using h.apart w
  · exact stock_insert (h.resident k) hr ht
  · have hroom := h.room hs k
    change total.stock k + host.incomingTotal.stock k ≤ host.capacity.stock k
    rw [hsum]
    omega

theorem reserve (h : host.Balanced) (ha : host.reserve v demand = .done host') :
    host'.Balanced := by
  obtain ⟨hr, hi, hs, total, ht, rfl⟩ := (reserve_eq_done_iff _ _ _ _).mp ha
  have hsum := ((Resources.add_eq_ok_iff _ _ _).mp ht).2
  refine ⟨fun w => ?_, h.resident, fun k => ?_, fun k => ?_⟩
  · by_cases hw : w = v
    · exact .inl (hw ▸ hr)
    · simpa [hw] using h.apart w
  · exact stock_insert (h.incoming k) hi ht
  · have hroom := h.room hs k
    change host.residentTotal.stock k + total.stock k ≤ host.capacity.stock k
    rw [hsum]
    omega

theorem release (h : host.Balanced) (v : VmId) : (host.release v).Balanced := by
  cases hv : host.resident.get? v with
  | none =>
    rw [Host.release, hv]
    exact h
  | some demand =>
    rw [release_of_get? hv]
    refine ⟨fun w => ?_, fun k => ?_, h.incoming, fun k => ?_⟩
    · by_cases hw : w = v
      · exact .inl (by simp [hw])
      · simpa [hw] using h.apart w
    · exact stock_erase (h.resident k) hv
    · have hw := h.within k
      change (host.residentTotal.sub demand).stock k + host.incomingTotal.stock k
        ≤ host.capacity.stock k
      rw [Resources.stock_sub]
      omega

theorem cancel (h : host.Balanced) (v : VmId) : (host.cancel v).Balanced := by
  cases hv : host.incoming.get? v with
  | none =>
    rw [Host.cancel, hv]
    exact h
  | some demand =>
    rw [cancel_of_get? hv]
    refine ⟨fun w => ?_, h.resident, fun k => ?_, fun k => ?_⟩
    · by_cases hw : w = v
      · exact .inr (by simp [hw])
      · simpa [hw] using h.apart w
    · exact stock_erase (h.incoming k) hv
    · have hw := h.within k
      change host.residentTotal.stock k + (host.incomingTotal.sub demand).stock k
        ≤ host.capacity.stock k
      rw [Resources.stock_sub]
      omega

theorem land (h : host.Balanced) (hl : host.land v = .done host') : host'.Balanced := by
  obtain ⟨demand, total, hv, ht, rfl⟩ := (land_eq_done_iff _ _ _).mp hl
  have hc := h.cancel v
  rw [cancel_of_get? hv] at hc
  have hr := h.resident_eq_none hv
  have hsum := ((Resources.add_eq_ok_iff _ _ _).mp ht).2
  refine ⟨fun w => ?_, fun k => ?_, hc.incoming, fun k => ?_⟩
  · by_cases hw : w = v
    · exact .inr (by simp [hw])
    · simpa [hw] using h.apart w
  · exact stock_insert (h.resident k) hr ht
  · have hw := h.within k
    have hle := h.incoming_le hv k
    change total.stock k + (host.incomingTotal.sub demand).stock k ≤ host.capacity.stock k
    rw [hsum, Resources.stock_sub]
    omega

theorem resize (h : host.Balanced) (hz : host.resize v demand = .done host') :
    host'.Balanced := by
  obtain ⟨current, available, room, total, hv, ha, hroom, hs, ht, rfl⟩ :=
    (resize_eq_done_iff _ _ _ _).mp hz
  have hsum := ((Resources.add_eq_ok_iff _ _ _).mp ht).2
  have hwhole := ((Resources.add_eq_ok_iff _ _ _).mp hroom).2
  obtain ⟨available', ha', hfree⟩ := h.available
  rw [ha, Except.ok.injEq] at ha'
  subst ha'
  refine ⟨fun w => ?_, fun k => ?_, h.incoming, fun k => ?_⟩
  · by_cases hw : w = v
    · rcases h.apart v with hr | hi
      · rw [hv] at hr
        cases hr
      · exact .inr (hw ▸ hi)
    · simpa [hw] using h.apart w
  · have htotal := Table.total_insert_known (fun _ d => d.stock k) hv demand
    have hbefore := h.resident k
    have hle := h.resident_le hv k
    simp only [residentStock] at hbefore ⊢
    rw [hsum, Resources.stock_sub]
    omega
  · have hle := h.resident_le hv k
    have hdemand := ((Resources.shortage_eq_none_iff _ _).mp hs).2 k
    have hk := hfree k
    rw [hwhole] at hdemand
    change total.stock k + host.incomingTotal.stock k ≤ host.capacity.stock k
    rw [hsum, Resources.stock_sub]
    omega

theorem step {admits : Resources α → Prop} (h : host.Balanced) (hs : Step admits host host') :
    host'.Balanced := by
  cases hs with
  | allocate _ ha => exact h.allocate ha
  | release v => exact h.release v
  | reserve _ ha => exact h.reserve ha
  | cancel v => exact h.cancel v
  | land hl => exact h.land hl
  | resize _ hz => exact h.resize hz

/-! ### No overflow -/

theorem shortage (h : host.Balanced) (demand : Resources α) :
    ∃ shortage, host.shortage demand = .ok shortage := by
  obtain ⟨available, ha, -⟩ := h.available
  refine ⟨available.shortage demand, ?_⟩
  rw [Host.shortage, ha]
  rfl

theorem add_eq_ok (h : host.Balanced) (hs : host.shortage demand = .ok none) {total : Resources α}
    (htotal : ∀ k, total.stock k ≤ host.residentTotal.stock k + host.incomingTotal.stock k) :
    ∃ sum, total.add demand = .ok sum := by
  refine Resources.add_eq_ok fun k => ?_
  have hroom := h.room hs k
  have hle := htotal k
  have hlt := host.capacity.stock_lt k
  omega

theorem admit_isSettled (h : host.Balanced) {total : Resources α}
    (htotal : ∀ k, total.stock k ≤ host.residentTotal.stock k + host.incomingTotal.stock k)
    (after : Resources α → Host α) :
    (if host.holds v then .refused .alreadyAllocated
      else do
        roomOrRefuse (← host.shortage demand)
        let total ← total.add demand
        return after total : Outcome Refusal (Host α)).IsSettled := by
  split
  · exact Outcome.isSettled_refused _
  · obtain ⟨shortage, hs⟩ := h.shortage demand
    rw [hs, Outcome.lift_eq, Outcome.ofChecked_ok, Outcome.done_bind]
    cases shortage with
    | some dimension => exact Outcome.isSettled_refused _
    | none =>
      obtain ⟨sum, hsum⟩ := h.add_eq_ok hs htotal
      rw [hsum]
      exact Outcome.isSettled_done _

theorem allocate_isSettled (h : host.Balanced) (v : VmId) (demand : Resources α) :
    (host.allocate v demand).IsSettled :=
  h.admit_isSettled (fun _ => Nat.le_add_right _ _) _

theorem reserve_isSettled (h : host.Balanced) (v : VmId) (demand : Resources α) :
    (host.reserve v demand).IsSettled :=
  h.admit_isSettled (fun _ => Nat.le_add_left _ _) _

/-- A VM that the host does not hold is admitted, or something is short. -/
theorem admit_cases (h : host.Balanced) (hr : host.resident.get? v = none)
    (hi : host.incoming.get? v = none) {total : Resources α}
    (htotal : ∀ k, total.stock k ≤ host.residentTotal.stock k + host.incomingTotal.stock k)
    (after : Resources α → Host α) {admitted : Outcome Refusal (Host α)}
    (ha : admitted = if host.holds v then .refused .alreadyAllocated
      else do
        roomOrRefuse (← host.shortage demand)
        let total ← total.add demand
        return after total) :
    (∃ host', admitted = .done host')
      ∨ ∃ d, host.shortage demand = .ok (some d) ∧ admitted = .refused (.notEnough d) := by
  obtain ⟨shortage, hs⟩ := h.shortage demand
  rw [(holds_eq_false_iff host v).mpr ⟨hr, hi⟩, if_neg Bool.false_ne_true, hs, Outcome.lift_eq,
    Outcome.ofChecked_ok, Outcome.done_bind] at ha
  cases shortage with
  | some d => exact .inr ⟨d, hs, ha⟩
  | none =>
    obtain ⟨sum, hsum⟩ := h.add_eq_ok hs htotal
    rw [hsum] at ha
    exact .inl ⟨after sum, ha⟩

theorem allocate_cases (h : host.Balanced) (hr : host.resident.get? v = none)
    (hi : host.incoming.get? v = none) (demand : Resources α) :
    (∃ host', host.allocate v demand = .done host')
      ∨ ∃ d, host.shortage demand = .ok (some d)
        ∧ host.allocate v demand = .refused (.notEnough d) :=
  h.admit_cases hr hi (fun _ => Nat.le_add_right _ _) _ rfl

theorem reserve_cases (h : host.Balanced) (hr : host.resident.get? v = none)
    (hi : host.incoming.get? v = none) (demand : Resources α) :
    (∃ host', host.reserve v demand = .done host')
      ∨ ∃ d, host.shortage demand = .ok (some d)
        ∧ host.reserve v demand = .refused (.notEnough d) :=
  h.admit_cases hr hi (fun _ => Nat.le_add_left _ _) _ rfl

theorem add_landing_eq_ok (h : host.Balanced) (hv : host.incoming.get? v = some demand) :
    ∃ total, host.residentTotal.add demand = .ok total := by
  refine Resources.add_eq_ok fun k => ?_
  have hle := h.incoming_le hv k
  have hw := h.within k
  have hlt := host.capacity.stock_lt k
  omega

theorem land_isSettled (h : host.Balanced) (v : VmId) : (host.land v).IsSettled := by
  rw [Host.land]
  cases hv : host.incoming.get? v with
  | none => exact Outcome.isSettled_refused _
  | some demand =>
    obtain ⟨total, ht⟩ := h.add_landing_eq_ok hv
    simp only [cancel_of_get? hv, ht]
    exact Outcome.isSettled_done _

/-- What is left and what a resident has can be added, and its next demand fits into a word if it
fits into that. -/
theorem add_resizing_eq_ok (h : host.Balanced) {current : Resources α}
    (hv : host.resident.get? v = some current) (demand : Resources α) :
    ∃ available room, host.available = .ok available ∧ available.add current = .ok room
      ∧ (room.shortage demand = none →
        ∃ total, (host.residentTotal.sub current).add demand = .ok total) := by
  obtain ⟨available, ha, hfree⟩ := h.available
  have hwhole : ∀ k, available.stock k + current.stock k ≤ host.capacity.stock k := by
    intro k
    have hle := h.resident_le hv k
    have hk := hfree k
    omega
  obtain ⟨room, hroom⟩ := Resources.add_eq_ok fun k =>
    Nat.lt_of_le_of_lt (hwhole k) (host.capacity.stock_lt k)
  refine ⟨available, room, ha, hroom, fun hs => Resources.add_eq_ok fun k => ?_⟩
  have hdemand := ((Resources.shortage_eq_none_iff _ _).mp hs).2 k
  have hsum := ((Resources.add_eq_ok_iff _ _ _).mp hroom).2 k
  have hle := h.resident_le hv k
  have hk := hfree k
  have hlt := host.capacity.stock_lt k
  rw [Resources.stock_sub]
  omega

theorem resize_isSettled (h : host.Balanced) (v : VmId) (demand : Resources α) :
    (host.resize v demand).IsSettled := by
  rw [Host.resize]
  cases hv : host.resident.get? v with
  | none => exact Outcome.isSettled_refused _
  | some current =>
    obtain ⟨available, room, ha, hroom, htotal⟩ := h.add_resizing_eq_ok hv demand
    simp only [ha, hroom, Outcome.lift_eq, Outcome.ofChecked_ok, Outcome.done_bind]
    refine Outcome.IsSettled.bind ?_ fun u hu => ?_
    · cases room.shortage demand with
      | none => exact Outcome.isSettled_done _
      | some dimension => exact Outcome.isSettled_refused _
    · obtain ⟨total, ht⟩ := htotal ((roomOrRefuse_eq_done_iff _ _).mp hu)
      rw [ht]
      exact Outcome.isSettled_done _

end Balanced

end Datacenter.Host
