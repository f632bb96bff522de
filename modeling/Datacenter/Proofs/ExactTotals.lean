import Mathlib.Data.Rat.Sqrt
import Datacenter.Proofs.Moves
import Datacenter.Proofs.Placements
import Datacenter.Proofs.PlanTracking

/-!
# Exact totals

If no VM asks for a negative rate and nothing is rounded, no difference of compute rates stops
short. So the totals of a host are the sums of its entries in compute rates too, not only in words.

Main statements: `Exact.step` and `ReachableWith.allExact`.
-/

namespace Datacenter

variable {α M : Type} [Scalar α] [AddCommMonoid M] [PartialOrder M]

/-! ### Entries and their total -/

/-- The total is the sum of the entries, none of which has less than nothing. -/
structure SumsUp (entries : Table VmId (Resources α)) (total : Resources α) (f : Resources α → M) :
    Prop where
  total : f total = entries.total fun _ d => f d
  nonneg : ∀ v d, entries.get? v = some d → 0 ≤ f d

namespace SumsUp

variable {entries : Table VmId (Resources α)} {total after demand current : Resources α}
  {f : Resources α → M} {v : VmId}

theorem empty (hf : Resources.IsAmount f) : SumsUp (∅ : Table VmId (Resources α)) .zero f where
  total := by
    rw [Table.total_empty]
    exact hf.zero
  nonneg v d hd := by
    rw [Table.get?_emptyCollection] at hd
    cases hd

omit [Scalar α] in
theorem nonneg_insert (h : SumsUp entries total f) (hd : 0 ≤ f demand) (w : VmId) (d : Resources α)
    (hget : (entries.insert v demand).get? w = some d) : 0 ≤ f d := by
  rw [Table.get?_insert] at hget
  split at hget
  · cases hget
    exact hd
  · exact h.nonneg w d hget

theorem insert (h : SumsUp entries total f) (hf : Resources.IsAmount f) (hd : 0 ≤ f demand)
    (hv : entries.get? v = none) (ht : total.add demand = .ok after) :
    SumsUp (entries.insert v demand) after f where
  total := by rw [Table.total_insert_new (fun _ d => f d) hv, hf.add ht, h.total]
  nonneg := h.nonneg_insert hd

variable [IsOrderedCancelAddMonoid M]

theorem sub_add (h : SumsUp entries total f) (hf : Resources.IsAmount f)
    (hv : entries.get? v = some current) : f (total.sub current) + f current = f total := by
  refine hf.sub ?_
  rw [h.total]
  exact Table.le_total (f := fun _ d => f d) h.nonneg hv

theorem erase (h : SumsUp entries total f) (hf : Resources.IsAmount f)
    (hv : entries.get? v = some current) : SumsUp (entries.erase v) (total.sub current) f where
  total := by
    have hsum := Table.total_erase (fun _ d => f d) hv
    rw [← h.total, ← h.sub_add hf hv] at hsum
    exact (add_right_cancel hsum).symm
  nonneg w d hd := by
    rw [Table.get?_erase] at hd
    split at hd
    · cases hd
    · exact h.nonneg w d hd

theorem replace (h : SumsUp entries total f) (hf : Resources.IsAmount f) (hd : 0 ≤ f demand)
    (hv : entries.get? v = some current) (ht : (total.sub current).add demand = .ok after) :
    SumsUp (entries.insert v demand) after f where
  total := by
    have hsum := Table.total_insert_known (fun _ d => f d) hv demand
    rw [← h.total, ← h.sub_add hf hv, add_right_comm] at hsum
    rw [hf.add ht]
    exact (add_right_cancel hsum).symm
  nonneg := h.nonneg_insert hd

end SumsUp

/-! ### Hosts -/

/-- Both totals of the host are the sums of its entries. -/
structure Host.Exact (host : Host α) (f : Resources α → M) : Prop where
  resident : SumsUp host.resident host.residentTotal f
  incoming : SumsUp host.incoming host.incomingTotal f

theorem Host.Balanced.exact_stock {host : Host α} (h : host.Balanced) (k : Stock) :
    host.Exact fun d => d.stock k :=
  ⟨⟨h.resident k, fun _ _ _ => Nat.zero_le _⟩, ⟨h.incoming k, fun _ _ _ => Nat.zero_le _⟩⟩

namespace Host.Exact

variable {host host' : Host α} {f : Resources α → M}

theorem create (hf : Resources.IsAmount f) (id : HostId) (spec : HostSpec α) :
    (Host.create id spec).Exact f := ⟨.empty hf, .empty hf⟩

variable [IsOrderedCancelAddMonoid M]

theorem release (h : host.Exact f) (hf : Resources.IsAmount f) (v : VmId) :
    (host.release v).Exact f := by
  cases hv : host.resident.get? v with
  | none =>
    rw [Host.release, hv]
    exact h
  | some demand =>
    rw [release_of_get? hv]
    exact ⟨h.resident.erase hf hv, h.incoming⟩

theorem cancel (h : host.Exact f) (hf : Resources.IsAmount f) (v : VmId) :
    (host.cancel v).Exact f := by
  cases hv : host.incoming.get? v with
  | none =>
    rw [Host.cancel, hv]
    exact h
  | some demand =>
    rw [cancel_of_get? hv]
    exact ⟨h.resident, h.incoming.erase hf hv⟩

theorem step (h : host.Exact f) (hb : host.Balanced) (hf : Resources.IsAmount f)
    (hs : Step (fun d => 0 ≤ f d) host host') : host'.Exact f := by
  cases hs with
  | allocate hd ha =>
    obtain ⟨hr, -, -, total, ht, rfl⟩ := (allocate_eq_done_iff _ _ _ _).mp ha
    exact ⟨h.resident.insert hf hd hr ht, h.incoming⟩
  | release v => exact h.release hf v
  | reserve hd ha =>
    obtain ⟨-, hi, -, total, ht, rfl⟩ := (reserve_eq_done_iff _ _ _ _).mp ha
    exact ⟨h.resident, h.incoming.insert hf hd hi ht⟩
  | cancel v => exact h.cancel hf v
  | @land _ v hl =>
    obtain ⟨demand, total, hv, ht, rfl⟩ := (land_eq_done_iff _ _ _).mp hl
    have hd := h.incoming.nonneg v demand hv
    exact ⟨h.resident.insert hf hd (hb.resident_eq_none hv) ht, h.incoming.erase hf hv⟩
  | resize hd hz =>
    obtain ⟨current, available, room, total, hv, -, -, -, ht, rfl⟩ :=
      (resize_eq_done_iff _ _ _ _).mp hz
    exact ⟨h.resident.replace hf hd hv ht, h.incoming⟩

end Host.Exact

/-- The totals of the host are exact in all its resources. -/
structure Host.AllExact {K : Type} [ExactScalar K] (host : Host K) : Prop where
  balanced : host.Balanced
  mips : host.Exact fun d => d.mips

namespace Host.AllExact

variable {K : Type} [ExactScalar K] {host host' : Host K}

theorem create (id : HostId) (spec : HostSpec K) : (Host.create id spec).AllExact :=
  ⟨.create id spec, .create Resources.isAmount_mips id spec⟩

theorem step (h : host.AllExact) (hs : Step (fun d => 0 ≤ d.mips) host host') : host'.AllExact :=
  ⟨h.balanced.step hs, h.mips.step h.balanced Resources.isAmount_mips hs⟩

end Host.AllExact

/-! ### Pools -/

namespace Pool

/-- Some run of operations leads to the pool, and all pools on the way have the property. -/
inductive ReachableWith (P : Pool α → Prop) : Pool α → Prop where
  | start (h : P empty) : ReachableWith P empty
  | tail {pool pool' : Pool α} {op : Op α} (run : ReachableWith P pool)
      (h : op.apply pool = .ok pool') (hp : P pool') : ReachableWith P pool'

namespace ReachableWith

variable {P : Pool α → Prop} {pool : Pool α}

theorem holds (h : pool.ReachableWith P) : P pool := by
  cases h with
  | start h => exact h
  | tail _ _ hp => exact hp

theorem reachable (h : pool.ReachableWith P) : pool.Reachable := by
  induction h with
  | start => exact .refl empty
  | tail _ happly _ ih => exact ih.apply _ happly

end ReachableWith

variable {K : Type} [ExactScalar K] {pool pool' : Pool K}

theorem NonNegative.change (hn : pool.NonNegative) {op : Op K} (hop : op.AsksFor (0 ≤ ·))
    (h : Change op pool pool') : pool'.NonNegative := by
  have hinsert : ∀ {v : VmId} {vm : Vm K}, 0 ≤ vm.mips → pool'.vms = pool.vms.insert v vm →
      pool'.NonNegative := by
    intro v vm hmips hvms w record hw
    rw [hvms, Table.get?_insert] at hw
    split at hw
    · cases hw
      exact mul_nonneg (Nat.cast_nonneg _) hmips
    · exact hn w record hw
  rcases h.vms_cases hop with hsame | ⟨spec, hmips, hvms⟩ | ⟨v, vm, mips, hmips, -, hvms⟩
  · intro v vm' hv'
    obtain ⟨vm, hv, -, hspec⟩ := hsame.get? hv'
    rw [← demand_eq_of_toVmSpec_eq hspec]
    exact hn v vm hv
  · exact hinsert hmips hvms
  · exact hinsert hmips hvms

theorem NonNegative.empty : (empty : Pool K).NonNegative := by
  intro v vm hv
  rw [Pool.empty, Table.get?_emptyCollection] at hv
  cases hv

theorem Steps.reachableWith (h : Steps (Op.AsksFor (0 ≤ ·)) Pool.empty pool) :
    pool.ReachableWith NonNegative := by
  induction h with
  | refl => exact .start .empty
  | tail _ hop happly ih =>
    refine .tail ih happly (Op.apply_keeps (fun _ => trivial) (fun _ => trivial) ?_ hop ih.holds
      happly)
    exact fun op before after hop hn hc => hn.change hop hc

theorem allExact_change (h : pool.AllHosts Host.AllExact) {op : Op K} (hn : pool'.NonNegative)
    (hc : Change op pool pool') : pool'.AllHosts Host.AllExact :=
  h.change Host.AllExact.create (fun _ _ he hs => he.step hs) hn hc

/-- As long as no VM asks for a negative rate, the totals of compute rates are exact too. -/
theorem ReachableWith.allExact (h : pool.ReachableWith NonNegative) :
    pool.AllHosts Host.AllExact := by
  induction h with
  | start =>
    intro g host hg
    rw [Pool.empty, Table.get?_emptyCollection] at hg
    cases hg
  | tail hrun happly hn ih =>
    rcases Op.apply_cases happly with rfl | hc | ⟨host, rfl, rfl⟩
    · exact ih
    · exact allExact_change ih hn hc
    · -- An eviction goes through pools of its own, with the same VMs.
      have keeps : ∀ (op : Op K) (pool pool' : Pool K), op.AsksFor (0 ≤ ·) →
          (pool.NonNegative ∧ pool.AllHosts Host.AllExact) → Change op pool pool' →
          pool'.NonNegative ∧ pool'.AllHosts Host.AllExact := by
        rintro op pool pool' hop ⟨hn, hhosts⟩ hc
        have hn' := hn.change hop hc
        exact ⟨hn', allExact_change hhosts hn' hc⟩
      exact (evictHost_keeps (fun _ _ _ => keeps _ _ _ trivial) (fun _ _ _ => keeps _ _ _ trivial)
        ⟨hrun.holds, ih⟩ host).2

theorem Steps.exact_mips (h : Steps (Op.AsksFor (0 ≤ ·)) Pool.empty pool) :
    pool.NonNegative ∧ pool.AllHosts fun host => host.Exact fun d => d.mips :=
  ⟨h.reachableWith.holds, fun g host hg => (h.reachableWith.allExact g host hg).mips⟩

end Pool

end Datacenter
