import Datacenter.Proofs.ExactTotals
import Datacenter.Proofs.Offers
import Datacenter.Proofs.PlanTracking
import Datacenter.Proofs.Rearrangements

/-!
# Pools that carry more

Placing a VM and starting a migration only add to what hosts carry, and leave the records of VMs
that run nowhere as they are. Over exact rates, a host that refuses a demand refuses it under more
load as well.

Main statements: `Refuses.heavier`, `Heavier.allocate` and `Heavier.startPlan`.
-/

namespace Datacenter

variable {K : Type} [ExactScalar K]

/-! ### One host -/

/-- The hosts are the same one, and the second one has at least as much allocated. -/
structure Host.Heavier (host host' : Host K) : Prop where
  same : host.IsSame host'
  mips : host.residentTotal.mips + host.incomingTotal.mips
    ≤ host'.residentTotal.mips + host'.incomingTotal.mips
  stock : ∀ k, host.residentTotal.stock k + host.incomingTotal.stock k
    ≤ host'.residentTotal.stock k + host'.incomingTotal.stock k

namespace Host.Heavier

variable {host between host' : Host K} {v : VmId} {demand : Resources K}

theorem refl (host : Host K) : host.Heavier host := ⟨⟨rfl, rfl⟩, le_rfl, fun _ => le_rfl⟩

theorem trans (hab : host.Heavier between) (hbc : between.Heavier host') : host.Heavier host' where
  same := ⟨hbc.same.1.trans hab.same.1, hbc.same.2.trans hab.same.2⟩
  mips := hab.mips.trans hbc.mips
  stock k := (hab.stock k).trans (hbc.stock k)

theorem allocate (hn : 0 ≤ demand.mips) (h : host.allocate v demand = .done host') :
    host.Heavier host' := by
  obtain ⟨-, -, -, total, ht, rfl⟩ := (allocate_eq_done_iff _ _ _ _).mp h
  obtain ⟨hm, hs⟩ := (Resources.add_eq_ok_iff _ _ _).mp ht
  refine ⟨⟨rfl, rfl⟩, ?_, fun k => ?_⟩
  · change _ ≤ total.mips + host.incomingTotal.mips
    rw [hm]
    linarith
  · change _ ≤ total.stock k + host.incomingTotal.stock k
    rw [hs]
    omega

theorem reserve (hn : 0 ≤ demand.mips) (h : host.reserve v demand = .done host') :
    host.Heavier host' := by
  obtain ⟨-, -, -, total, ht, rfl⟩ := (reserve_eq_done_iff _ _ _ _).mp h
  obtain ⟨hm, hs⟩ := (Resources.add_eq_ok_iff _ _ _).mp ht
  refine ⟨⟨rfl, rfl⟩, ?_, fun k => ?_⟩
  · change _ ≤ host.residentTotal.mips + total.mips
    rw [hm]
    linarith
  · change _ ≤ host.residentTotal.stock k + total.stock k
    rw [hs]
    omega

/-- The same holds of what is allocated. -/
theorem allocated_le (h : host.Heavier host') {allocated allocated' : Resources K}
    (ha : host.allocated = .ok allocated) (ha' : host'.allocated = .ok allocated') :
    allocated.mips ≤ allocated'.mips ∧ ∀ k, allocated.stock k ≤ allocated'.stock k := by
  obtain ⟨hm, hs⟩ := (Resources.add_eq_ok_iff _ _ _).mp ha
  obtain ⟨hm', hs'⟩ := (Resources.add_eq_ok_iff _ _ _).mp ha'
  rw [hm, hm']
  refine ⟨h.mips, fun k => ?_⟩
  rw [hs, hs']
  exact h.stock k

end Host.Heavier

/-! ### Refusals -/

theorem Resources.shortage_sub_ne_none {capacity allocated allocated' demand : Resources K}
    (hm : allocated.mips ≤ allocated'.mips)
    (hs : ∀ k, allocated.stock k ≤ allocated'.stock k)
    (h : (capacity.sub allocated).shortage demand ≠ none) :
    (capacity.sub allocated').shortage demand ≠ none := by
  intro hnone
  obtain ⟨hrate, hwords⟩ := (shortage_eq_none_iff _ _).mp hnone
  refine h ((shortage_eq_none_iff _ _).mpr ⟨fun hlt => hrate ?_, fun k => ?_⟩)
  · -- What is left in rates is the smaller, the more is allocated.
    have hleft : (capacity.sub allocated').mips ≤ (capacity.sub allocated).mips := by
      rw [mips_sub, mips_sub, Scalar.larger_eq_max, Scalar.larger_eq_max]
      exact max_le_max (sub_le_sub_left hm _) le_rfl
    linarith
  · have hfit := hwords k
    have hle := hs k
    rw [stock_sub] at hfit ⊢
    omega

namespace Selector

variable {host host' : Host K} {allocated allocated' demand : Resources K} {ceiling : K}

theorem utilizationOf_le (hpos : 0 < host.totalMips) (hm : allocated.mips ≤ allocated'.mips)
    (hs : ∀ k, allocated.stock k ≤ allocated'.stock k) :
    utilizationOf host allocated demand ≤ utilizationOf host allocated' demand := by
  have hratio : ∀ k, (Scalar.ofNat (allocated.stock k + demand.stock k) : K)
        / Scalar.ofNat (host.capacity.stock k)
      ≤ Scalar.ofNat (allocated'.stock k + demand.stock k)
        / Scalar.ofNat (host.capacity.stock k) := by
    intro k
    have hle : allocated.stock k + demand.stock k ≤ allocated'.stock k + demand.stock k :=
      Nat.add_le_add_right (hs k) _
    exact div_le_div_of_nonneg_right (Nat.cast_le.mpr hle) (Nat.cast_nonneg _)
  have hcpu : (allocated.mips + demand.mips) / host.totalMips
      ≤ (allocated'.mips + demand.mips) / host.totalMips :=
    div_le_div_of_nonneg_right (by linarith) hpos.le
  simp only [utilizationOf, Scalar.larger_eq_max]
  refine max_le_max (max_le_max hcpu (hratio .memory)) ?_
  split
  · exact hratio .bandwidth
  · exact le_rfl

/-- A host that has more allocated refuses at least what it refused before. -/
theorem Refuses.heavier (h : Refuses ceiling host allocated demand) (hpos : 0 < host.totalMips)
    (hheavier : host.Heavier host') (ha : host.allocated = .ok allocated)
    (ha' : host'.allocated = .ok allocated') : Refuses ceiling host' allocated' demand := by
  obtain ⟨hm, hs⟩ := hheavier.allocated_le ha ha'
  have hspec := hheavier.same.2
  have hcapacity : host'.capacity = host.capacity := by
    rw [Host.capacity, Host.capacity, Host.totalMips, Host.totalMips, hspec]
  rcases h with hshort | hhigh
  · left
    rw [hcapacity]
    exact Resources.shortage_sub_ne_none hm hs hshort
  · right
    have hsame : utilizationOf host' allocated' demand = utilizationOf host allocated' demand := by
      rw [utilizationOf, utilizationOf, hcapacity, Host.totalMips, Host.totalMips, hspec]
    rw [hsame]
    exact lt_of_lt_of_le hhigh (utilizationOf_le hpos hm hs)

end Selector

/-! ### Pools -/

/-- The pools have the same hosts, which have at least as much allocated in the second one. VMs that
run nowhere in it are as they were. -/
structure Pool.Heavier (pool pool' : Pool K) : Prop where
  hosts : ∀ h host', pool'.hosts.get? h = some host' →
    ∃ host, pool.hosts.get? h = some host ∧ host.Heavier host'
  idle : ∀ v vm', pool'.vms.get? v = some vm' → vm'.host = none →
    pool.vms.get? v = some vm'

namespace Pool.Heavier

variable {pool between pool' : Pool K} {v : VmId} {h : HostId}

theorem refl (pool : Pool K) : pool.Heavier pool :=
  ⟨fun _ host hh => ⟨host, hh, .refl host⟩, fun _ _ hv _ => hv⟩

theorem trans (hab : pool.Heavier between) (hbc : between.Heavier pool') : pool.Heavier pool' := by
  refine ⟨fun h host' hh' => ?_, fun v vm' hv' hidle => ?_⟩
  · obtain ⟨middle, hmiddle, hlater⟩ := hbc.hosts h host' hh'
    obtain ⟨host, hh, hearlier⟩ := hab.hosts h middle hmiddle
    exact ⟨host, hh, hearlier.trans hlater⟩
  · exact hab.idle v vm' (hbc.idle v vm' hv' hidle) hidle

/-- One host is replaced by a heavier one, and one VM by a record that has a host. -/
theorem of_writes {host host' : Host K} {vm : Vm K} (hh : pool.hosts.get? h = some host)
    (hheavier : host.Heavier host') (hvm : vm.host ≠ none) :
    pool.Heavier ((pool.withHost h host').withVm v vm) := by
  refine ⟨fun g last hg => ?_, fun w last hw hidle => ?_⟩
  · rw [hosts_withVm, hosts_withHost, Table.get?_insert] at hg
    split at hg
    · rename_i hgh
      cases hg
      exact ⟨host, hgh ▸ hh, hheavier⟩
    · exact ⟨last, hg, .refl last⟩
  · rw [vms_withVm, vms_withHost, Table.get?_insert] at hw
    split at hw
    · cases hw
      exact absurd hidle hvm
    · exact hw

theorem allocate (hn : pool.NonNegative) (hdone : pool.allocate v h = .done pool') :
    pool.Heavier pool' := by
  obtain ⟨vm, host, host', hv, -, hh, hadmit, rfl⟩ := (allocate_eq_done_iff _ _ _ _).mp hdone
  exact of_writes hh (.allocate (hn v vm hv) hadmit) (by simp)

theorem startMigration (hn : pool.NonNegative) (hdone : pool.startMigration v h = .done pool') :
    pool.Heavier pool' := by
  obtain ⟨vm, s, target, target', hv, hs, -, -, ht, hreserve, rfl⟩ :=
    (startMigration_eq_done_iff _ _ _ _).mp hdone
  exact of_writes ht (.reserve (hn v vm hv) hreserve) (by simp [Vm.movingTo, hs])

theorem startPlan (hn : pool.NonNegative) {ms : List (Migration K)}
    {rejection? : Option PlanRejection} (hstart : pool.startPlan ms = .ok (pool', rejection?)) :
    pool.Heavier pool' := by
  induction ms generalizing pool with
  | nil =>
    cases hstart
    exact .refl _
  | cons m rest ih =>
    rcases startPlan_cons_eq_ok hstart with ⟨between, hfirst, hrest⟩ | ⟨reason, -, rfl, -⟩
    · have hasks : (Op.startMigration m.vm m.target : Op K).AsksFor (0 ≤ ·) := trivial
      have hnext : between.NonNegative := hn.change hasks (.startMigration hfirst)
      exact (startMigration hn hfirst).trans (ih hnext hrest)
    · exact .refl _

end Pool.Heavier

end Datacenter
