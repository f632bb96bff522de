import Datacenter.Proofs.HostBalance

/-!
# Amounts without loss

An amount of resources is exact if sums add up in it, and if a part of it is taken without loss.
Amounts in words are exact. A host covers an amount if its totals are at least the sums of its
entries, which no step changes.

Main statements: `isAmount_stock` and `Covers.step`.
-/

namespace Datacenter

variable {α M : Type} [Scalar α] [AddCommMonoid M] [PartialOrder M]

/-- An amount in which sums are exact, and so are differences that do not stop short. A difference
that stops short leaves too much. -/
structure Resources.IsAmount (f : Resources α → M) : Prop where
  zero : f zero = 0
  add : ∀ {a b c : Resources α}, a.add b = .ok c → f c = f a + f b
  sub : ∀ {a b : Resources α}, f b ≤ f a → f (a.sub b) + f b = f a
  le_sub : ∀ a b : Resources α, f a ≤ f (a.sub b) + f b

theorem Resources.isAmount_stock (k : Stock) : IsAmount fun r : Resources α => r.stock k where
  zero := stock_zero k
  add h := ((add_eq_ok_iff _ _ _).mp h).2 k
  sub h := by
    simp only [stock_sub] at h ⊢
    omega
  le_sub a b := by
    simp only [stock_sub]
    omega

namespace Host

/-- Totals are at least the sums of the entries. -/
structure Covers (host : Host α) (f : Resources α → M) : Prop where
  resident : host.resident.total (fun _ d => f d) ≤ f host.residentTotal
  incoming : host.incoming.total (fun _ d => f d) ≤ f host.incomingTotal

/-- No resident has less than nothing, and all of them have at most what is allocated. -/
structure Carries (host : Host α) (f : Resources α → M) : Prop where
  nonneg : ∀ v d, host.resident.get? v = some d → 0 ≤ f d
  le : ∀ allocated, host.allocated = .ok allocated →
    host.resident.total (fun _ d => f d) ≤ f allocated

theorem Balanced.covers_stock {host : Host α} (h : host.Balanced) (k : Stock) :
    host.Covers fun d => d.stock k where
  resident := by
    have hk := h.resident k
    rw [residentStock] at hk
    exact Nat.le_of_eq hk.symm
  incoming := by
    have hk := h.incoming k
    rw [incomingStock] at hk
    exact Nat.le_of_eq hk.symm

namespace Covers

variable {host host' : Host α} {f : Resources α → M} {v : VmId} {demand : Resources α}

theorem create (hf : Resources.IsAmount f) (id : HostId) (spec : HostSpec α) :
    (Host.create id spec).Covers f where
  resident := by
    rw [Host.create, Table.total_empty]
    exact le_of_eq hf.zero.symm
  incoming := by
    rw [Host.create, Table.total_empty]
    exact le_of_eq hf.zero.symm

theorem carries [IsOrderedAddMonoid M] (hc : host.Covers f) (hf : Resources.IsAmount f)
    (hresident : ∀ w d, host.resident.get? w = some d → 0 ≤ f d)
    (hincoming : ∀ w d, host.incoming.get? w = some d → 0 ≤ f d) : host.Carries f where
  nonneg := hresident
  le allocated ha := by
    have hle : 0 ≤ f host.incomingTotal := le_trans (Table.total_nonneg hincoming) hc.incoming
    rw [hf.add ha]
    exact le_trans hc.resident (le_add_of_nonneg_right hle)

variable [IsOrderedCancelAddMonoid M]

theorem release (hc : host.Covers f) (hf : Resources.IsAmount f) (v : VmId) :
    (host.release v).Covers f := by
  cases hv : host.resident.get? v with
  | none =>
    rw [Host.release, hv]
    exact hc
  | some demand =>
    rw [release_of_get? hv]
    refine ⟨?_, hc.incoming⟩
    have htotal := Table.total_erase (fun _ d => f d) hv
    have hle := le_trans hc.resident (hf.le_sub host.residentTotal demand)
    rw [← htotal] at hle
    exact le_of_add_le_add_right hle

theorem cancel (hc : host.Covers f) (hf : Resources.IsAmount f) (v : VmId) :
    (host.cancel v).Covers f := by
  cases hv : host.incoming.get? v with
  | none =>
    rw [Host.cancel, hv]
    exact hc
  | some demand =>
    rw [cancel_of_get? hv]
    refine ⟨hc.resident, ?_⟩
    have htotal := Table.total_erase (fun _ d => f d) hv
    have hle := le_trans hc.incoming (hf.le_sub host.incomingTotal demand)
    rw [← htotal] at hle
    exact le_of_add_le_add_right hle

omit [IsOrderedCancelAddMonoid M] in
theorem insert [IsOrderedAddMonoid M] (hf : Resources.IsAmount f)
    {entries : Table VmId (Resources α)} {before total : Resources α}
    (hle : entries.total (fun _ d => f d) ≤ f before) (hv : entries.get? v = none)
    (ht : before.add demand = .ok total) :
    (entries.insert v demand).total (fun _ d => f d) ≤ f total := by
  rw [Table.total_insert_new (fun _ d => f d) hv, hf.add ht]
  exact add_le_add_left hle _

theorem land (hc : host.Covers f) (hb : host.Balanced) (hf : Resources.IsAmount f)
    (hl : host.land v = .done host') : host'.Covers f := by
  obtain ⟨demand, total, hv, ht, rfl⟩ := (land_eq_done_iff _ _ _).mp hl
  have hcancel := hc.cancel hf v
  rw [cancel_of_get? hv] at hcancel
  exact ⟨insert hf hc.resident (hb.resident_eq_none hv) ht, hcancel.incoming⟩

theorem resize (hc : host.Covers f) (hf : Resources.IsAmount f)
    (hz : host.resize v demand = .done host') : host'.Covers f := by
  obtain ⟨current, available, room, total, hv, -, -, -, ht, rfl⟩ :=
    (resize_eq_done_iff _ _ _ _).mp hz
  refine ⟨?_, hc.incoming⟩
  have htotal := Table.total_insert_known (fun _ d => f d) hv demand
  have hle := le_trans hc.resident (hf.le_sub host.residentTotal current)
  have hsum : (host.resident.insert v demand).total (fun _ d => f d) + f current
      ≤ f total + f current := by
    rw [htotal, hf.add ht, add_right_comm]
    exact add_le_add_left hle _
  exact le_of_add_le_add_right hsum

theorem step {admits : Resources α → Prop} (hc : host.Covers f) (hb : host.Balanced)
    (hf : Resources.IsAmount f) (hs : Step admits host host') : host'.Covers f := by
  cases hs with
  | allocate _ ha =>
    obtain ⟨hr, -, -, total, ht, rfl⟩ := (allocate_eq_done_iff _ _ _ _).mp ha
    exact ⟨insert hf hc.resident hr ht, hc.incoming⟩
  | release v => exact hc.release hf v
  | reserve _ ha =>
    obtain ⟨-, hi, -, total, ht, rfl⟩ := (reserve_eq_done_iff _ _ _ _).mp ha
    exact ⟨hc.resident, insert hf hc.incoming hi ht⟩
  | cancel v => exact hc.cancel hf v
  | land hl => exact hc.land hb hf hl
  | resize _ hz => exact hc.resize hf hz

end Covers

end Host

end Datacenter
