import Datacenter.Pool.Load
import Datacenter.Proofs.Amounts
import Datacenter.Proofs.Ownership

/-!
# Planning loads

The planning load of a host is what is allocated on it, less what its residents take away when they
migrate. An amount that is large enough to be taken from comes out exactly.

Main statements: `planningLoad_exact` and, whatever the signs of demands, `le_planningLoad`.
-/

namespace Datacenter

namespace Pool

variable {α M : Type}

/-- The VM is on its way to another host. -/
def migrates (pool : Pool α) (v : VmId) : Bool := (pool.vms.get? v).any (·.isMigrating)

theorem migrates_of_get? {pool : Pool α} {v : VmId} {vm : Vm α} (hv : pool.vms.get? v = some vm) :
    pool.migrates v = vm.isMigrating := by
  rw [migrates, hv, Option.any_some]

/-- The sum of what migrating residents have on a host. -/
def outgoing [AddCommMonoid M] (pool : Pool α) (f : Resources α → M) (host : Host α) : M :=
  host.resident.total fun v d => if pool.migrates v then f d else 0

variable [Scalar α]

theorem withoutOutgoing_eq_ok (pool : Pool α) (load : Resources α)
    {es : List (VmId × Resources α)} (hes : ∀ e ∈ es, ∃ vm, pool.vms.get? e.1 = some vm) :
    ∃ rest, pool.withoutOutgoing load es = .ok rest := by
  induction es generalizing load with
  | nil => exact ⟨load, rfl⟩
  | cons e es ih =>
    obtain ⟨vm, hv⟩ := hes e List.mem_cons_self
    obtain ⟨rest, hrest⟩ := ih (if vm.isMigrating then load.sub e.2 else load)
      fun x hx => hes x (List.mem_cons_of_mem _ hx)
    refine ⟨rest, ?_⟩
    rw [withoutOutgoing, (vm_eq_ok_iff _ _ _).mpr hv, Checked.ok_bind]
    exact hrest

variable [AddCommMonoid M] [PartialOrder M] [IsOrderedCancelAddMonoid M]

theorem withoutOutgoing_exact {f : Resources α → M} (hf : Resources.IsAmount f) {pool : Pool α}
    {es : List (VmId × Resources α)} {load rest : Resources α} (hes : ∀ e ∈ es, 0 ≤ f e.2)
    (hle : Entries.total (fun v d => if pool.migrates v then f d else 0) es ≤ f load)
    (h : pool.withoutOutgoing load es = .ok rest) :
    f rest + Entries.total (fun v d => if pool.migrates v then f d else 0) es = f load := by
  induction es generalizing load with
  | nil =>
    rw [withoutOutgoing, Except.ok.injEq] at h
    rw [h, Entries.total, List.map_nil, List.sum_nil, add_zero]
  | cons e es ih =>
    rw [withoutOutgoing, Checked.bind_eq_ok_iff] at h
    obtain ⟨vm, hv, hrest⟩ := h
    have hm := migrates_of_get? ((vm_eq_ok_iff _ _ _).mp hv)
    have hes' : ∀ x ∈ es, 0 ≤ f x.2 := fun x hx => hes x (List.mem_cons_of_mem _ hx)
    rw [Entries.total_cons] at hle ⊢
    by_cases hmig : vm.isMigrating = true
    · -- The rest of the sum is not negative, so the load is large enough for this resident.
      have hsum : 0 ≤ Entries.total (fun v d => if pool.migrates v then f d else 0) es := by
        refine Entries.total_nonneg fun x hx => ?_
        split
        · exact hes' x hx
        · exact le_refl 0
      rw [hm, if_pos hmig] at hle ⊢
      rw [if_pos hmig] at hrest
      have hsub := hf.sub (le_trans (le_add_of_nonneg_right hsum) hle)
      rw [← hsub, add_comm (f e.2)] at hle
      rw [add_comm (f e.2), ← add_assoc, ih hes' (le_of_add_le_add_right hle) hrest, hsub]
    · rw [hm, if_neg hmig, zero_add] at hle ⊢
      rw [if_neg hmig] at hrest
      exact ih hes' hle hrest

omit [IsOrderedCancelAddMonoid M] in
/-- Whatever the signs, no more is taken from a load than what migrates out. -/
theorem le_withoutOutgoing [IsOrderedAddMonoid M] {f : Resources α → M}
    (hf : Resources.IsAmount f) {pool : Pool α} {es : List (VmId × Resources α)}
    {load rest : Resources α} (h : pool.withoutOutgoing load es = .ok rest) :
    f load ≤ f rest + Entries.total (fun v d => if pool.migrates v then f d else 0) es := by
  induction es generalizing load with
  | nil =>
    rw [withoutOutgoing, Except.ok.injEq] at h
    rw [h, Entries.total, List.map_nil, List.sum_nil, add_zero]
  | cons e es ih =>
    rw [withoutOutgoing, Checked.bind_eq_ok_iff] at h
    obtain ⟨vm, hv, hrest⟩ := h
    rw [Entries.total_cons, migrates_of_get? ((vm_eq_ok_iff _ _ _).mp hv)]
    by_cases hmig : vm.isMigrating = true
    · rw [if_pos hmig] at hrest ⊢
      refine le_trans (hf.le_sub load e.2) ?_
      rw [add_comm (f e.2), ← add_assoc]
      exact add_le_add_left (ih hrest) _
    · rw [if_neg hmig] at hrest ⊢
      rw [zero_add]
      exact ih hrest

omit [IsOrderedCancelAddMonoid M] in
theorem outgoing_le [IsOrderedAddMonoid M] {f : Resources α → M} (pool : Pool α) {host : Host α}
    (hc : host.Carries f) {allocated : Resources α} (ha : host.allocated = .ok allocated) :
    pool.outgoing f host ≤ f allocated := by
  refine le_trans (Table.total_mono fun v d hd => ?_) (hc.le allocated ha)
  split
  · exact le_refl _
  · exact hc.nonneg v d hd

/-- In an amount of which residents have no more than what is allocated, the planning load is what
is allocated without what migrates out. -/
theorem planningLoad_exact {f : Resources α → M} (hf : Resources.IsAmount f) {pool : Pool α}
    {h : HostId} {host : Host α} {allocated load : Resources α}
    (hh : pool.hosts.get? h = some host) (hc : host.Carries f)
    (ha : host.allocated = .ok allocated) (hl : pool.planningLoad h = .ok load) :
    f load + pool.outgoing f host = f allocated := by
  rw [planningLoad, (host_eq_ok_iff _ _ _).mpr hh, Checked.ok_bind, ha, Checked.ok_bind] at hl
  refine withoutOutgoing_exact hf (fun e he => ?_) (outgoing_le pool hc ha) hl
  exact hc.nonneg e.1 e.2 ((Table.mem_entries_iff _ _ _).mp he)

omit [IsOrderedCancelAddMonoid M] in
theorem le_planningLoad [IsOrderedAddMonoid M] {f : Resources α → M} (hf : Resources.IsAmount f)
    {pool : Pool α} {h : HostId} {host : Host α} {allocated load : Resources α}
    (hh : pool.hosts.get? h = some host) (ha : host.allocated = .ok allocated)
    (hl : pool.planningLoad h = .ok load) : f allocated ≤ f load + pool.outgoing f host := by
  rw [planningLoad, (host_eq_ok_iff _ _ _).mpr hh, Checked.ok_bind, ha, Checked.ok_bind] at hl
  exact le_withoutOutgoing hf hl

omit [AddCommMonoid M] [PartialOrder M] [IsOrderedCancelAddMonoid M]

theorem Ownership.planningLoad_eq_ok {pool : Pool α} (own : pool.Ownership) {h : HostId}
    {host : Host α} {allocated : Resources α} (hh : pool.hosts.get? h = some host)
    (ha : host.allocated = .ok allocated) : ∃ load, pool.planningLoad h = .ok load := by
  rw [planningLoad, (host_eq_ok_iff _ _ _).mpr hh, Checked.ok_bind, ha, Checked.ok_bind]
  refine withoutOutgoing_eq_ok pool allocated fun e he => ?_
  have hd := (Table.mem_entries_iff _ _ _).mp he
  rw [← residentShare_of_get? hh, own.resident, placedDemand_eq_some_iff] at hd
  obtain ⟨vm, hv, -⟩ := hd
  exact ⟨vm, hv⟩

end Pool

end Datacenter
