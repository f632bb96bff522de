import Datacenter.Proofs.Shares

/-!
# Single ownership

In a reachable pool, a host has an entry for a VM exactly if the record of the VM names the host,
and the entry is what the record asks for.

Main statements: `Ownership.change` and `Reachable.ownership`.
-/

namespace Datacenter.Pool

variable {α : Type} [Scalar α]

/-- Hosts and VMs tell the same about placements and migrations, and ids are used once. -/
structure Ownership (pool : Pool α) : Prop where
  resident : ∀ h v, pool.residentShare h v = pool.placedDemand h v
  incoming : ∀ h v, pool.incomingShare h v = pool.movingDemand h v
  moving : ∀ v vm t, pool.vms.get? v = some vm → vm.migrationTarget = some t →
    ∃ h, vm.host = some h ∧ h ≠ t
  host_id : ∀ h host, pool.hosts.get? h = some host → host.id = h ∧ h < pool.nextHost
  vm_id : ∀ v vm, pool.vms.get? v = some vm → vm.id = v ∧ v < pool.nextVm

namespace Ownership

variable {pool pool' : Pool α}

theorem resident_of_get? (own : pool.Ownership) {v : VmId} {vm : Vm α}
    (hv : pool.vms.get? v = some vm) (h : HostId) :
    pool.residentShare h v = if vm.host = some h then some vm.demand else none := by
  rw [own.resident, placedDemand, hv, Option.bind_some]

theorem incoming_of_get? (own : pool.Ownership) {v : VmId} {vm : Vm α}
    (hv : pool.vms.get? v = some vm) (h : HostId) :
    pool.incomingShare h v = if vm.migrationTarget = some h then some vm.demand else none := by
  rw [own.incoming, movingDemand, hv, Option.bind_some]

theorem migrationTarget_eq_none (own : pool.Ownership) {v : VmId} {vm : Vm α}
    (hv : pool.vms.get? v = some vm) (hp : vm.host = none) : vm.migrationTarget = none := by
  cases hm : vm.migrationTarget with
  | none => rfl
  | some t =>
    obtain ⟨s, hs, -⟩ := own.moving v vm t hv hm
    rw [hp] at hs
    cases hs

theorem empty : (empty : Pool α).Ownership where
  resident _ _ := by simp [residentShare, placedDemand, Pool.empty]
  incoming _ _ := by simp [incomingShare, movingDemand, Pool.empty]
  moving _ _ _ h := by simp [Pool.empty] at h
  host_id _ _ h := by simp [Pool.empty] at h
  vm_id _ _ h := by simp [Pool.empty] at h

/-- One record is changed, and hosts change their entries for that VM along with it. -/
theorem withVm {between : Pool α} (own : pool.Ownership) {v : VmId} {vm vm' : Vm α}
    (hv : pool.vms.get? v = some vm) (hid : vm'.id = vm.id)
    (hrest : between.vms = pool.vms ∧ between.nextHost = pool.nextHost
      ∧ between.nextVm = pool.nextVm)
    (hhosts : pool.SameHosts between)
    (hresident : ∀ h w, between.residentShare h w
      = if w = v then if vm'.host = some h then some vm'.demand else none
        else pool.residentShare h w)
    (hincoming : ∀ h w, between.incomingShare h w
      = if w = v then if vm'.migrationTarget = some h then some vm'.demand else none
        else pool.incomingShare h w)
    (hmoving : ∀ t, vm'.migrationTarget = some t → ∃ h, vm'.host = some h ∧ h ≠ t) :
    (between.withVm v vm').Ownership where
  resident h w := by
    rw [residentShare_withVm, hresident, placedDemand, vms_withVm, hrest.1, Table.get?_insert]
    split
    · rfl
    · exact own.resident h w
  incoming h w := by
    rw [incomingShare_withVm, hincoming, movingDemand, vms_withVm, hrest.1, Table.get?_insert]
    split
    · rfl
    · exact own.incoming h w
  moving w record t hw ht := by
    rw [vms_withVm, hrest.1, Table.get?_insert] at hw
    split at hw
    · cases hw
      exact hmoving t ht
    · exact own.moving w record t hw ht
  host_id h host' hh := by
    obtain ⟨host, hhost, hsame⟩ := hhosts.get? hh
    rw [hsame.1, nextHost_withVm, hrest.2.1]
    exact own.host_id h host hhost
  vm_id w record hw := by
    rw [vms_withVm, hrest.1, Table.get?_insert] at hw
    rw [nextVm_withVm, hrest.2.2]
    split at hw
    · rename_i hwv
      cases hw
      rw [hid, hwv]
      exact own.vm_id v vm hv
    · exact own.vm_id w record hw

/-! ### Changes keep ownership -/

theorem addHost (own : pool.Ownership) {id : HostId} {spec : HostSpec α}
    (h : pool.addHost spec = .ok (id, pool')) : pool'.Ownership := by
  obtain ⟨-, -, rfl⟩ := (addHost_eq_ok_iff _ _ _ _).mp h
  -- No record names the new host, since ids that are in use are smaller.
  have hnew : pool.hosts.get? pool.nextHost = none := by
    cases hn : pool.hosts.get? pool.nextHost with
    | none => rfl
    | some host => exact absurd (own.host_id _ _ hn).2 (Nat.lt_irrefl _)
  refine ⟨fun g w => ?_, fun g w => ?_, own.moving, fun g host hg => ?_, own.vm_id⟩
  · have hown := own.resident g w
    by_cases hgn : g = pool.nextHost
    · rw [residentShare, hgn, hnew, Option.bind_none] at hown
      rw [residentShare, Table.get?_insert, if_pos hgn, Option.bind_some]
      exact (Table.get?_emptyCollection w).trans (hgn ▸ hown)
    · rw [residentShare, Table.get?_insert, if_neg hgn]
      exact hown
  · have hown := own.incoming g w
    by_cases hgn : g = pool.nextHost
    · rw [incomingShare, hgn, hnew, Option.bind_none] at hown
      rw [incomingShare, Table.get?_insert, if_pos hgn, Option.bind_some]
      exact (Table.get?_emptyCollection w).trans (hgn ▸ hown)
    · rw [incomingShare, Table.get?_insert, if_neg hgn]
      exact hown
  · rw [Table.get?_insert] at hg
    split at hg
    · rename_i hgn
      cases hg
      exact ⟨hgn.symm, hgn ▸ Nat.lt_succ_self _⟩
    · obtain ⟨hid, hlt⟩ := own.host_id g host hg
      exact ⟨hid, Nat.lt_succ_of_lt hlt⟩

theorem addVm (own : pool.Ownership) {id : VmId} {spec : VmSpec α}
    (h : pool.addVm spec = .ok (id, pool')) : pool'.Ownership := by
  obtain ⟨-, -, rfl⟩ := (addVm_eq_ok_iff _ _ _ _).mp h
  have hnew : pool.vms.get? pool.nextVm = none := by
    cases hn : pool.vms.get? pool.nextVm with
    | none => rfl
    | some vm => exact absurd (own.vm_id _ _ hn).2 (Nat.lt_irrefl _)
  refine ⟨fun g w => ?_, fun g w => ?_, fun w vm t hw ht => ?_, own.host_id, fun w vm hw => ?_⟩
  · have hown := own.resident g w
    rw [placedDemand, Table.get?_insert]
    split
    · rename_i hw
      rw [hw, placedDemand, hnew, Option.bind_none] at hown
      rw [hw]
      exact hown
    · exact hown
  · have hown := own.incoming g w
    rw [movingDemand, Table.get?_insert]
    split
    · rename_i hw
      rw [hw, movingDemand, hnew, Option.bind_none] at hown
      rw [hw]
      exact hown
    · exact hown
  · rw [Table.get?_insert] at hw
    split at hw
    · cases hw
      cases ht
    · exact own.moving w vm t hw ht
  · rw [Table.get?_insert] at hw
    split at hw
    · rename_i hwn
      cases hw
      exact ⟨hwn.symm, hwn ▸ Nat.lt_succ_self _⟩
    · obtain ⟨hid, hlt⟩ := own.vm_id w vm hw
      exact ⟨hid, Nat.lt_succ_of_lt hlt⟩

theorem removeVm (own : pool.Ownership) {v : VmId} {vm : Vm α}
    (h : pool.removeVm v = .ok (vm, pool')) : pool'.Ownership := by
  obtain ⟨hv, hp, rfl⟩ := (removeVm_eq_ok_iff _ _ _ _).mp h
  have hm := own.migrationTarget_eq_none hv hp
  refine ⟨fun g w => ?_, fun g w => ?_, fun w record t hw ht => ?_, own.host_id,
    fun w record hw => ?_⟩
  · have hown := own.resident g w
    rw [placedDemand, Table.get?_erase]
    split
    · rename_i hw
      rw [hw]
      exact (own.resident_of_get? hv g).trans (by simp [hp])
    · exact hown
  · have hown := own.incoming g w
    rw [movingDemand, Table.get?_erase]
    split
    · rename_i hw
      rw [hw]
      exact (own.incoming_of_get? hv g).trans (by simp [hm])
    · exact hown
  · rw [Table.get?_erase] at hw
    split at hw
    · cases hw
    · exact own.moving w record t hw ht
  · rw [Table.get?_erase] at hw
    split at hw
    · cases hw
    · exact own.vm_id w record hw

theorem allocate (own : pool.Ownership) {v : VmId} {g : HostId}
    (h : pool.allocate v g = .done pool') : pool'.Ownership := by
  obtain ⟨vm, host, host', hv, hp, hg, ha, rfl⟩ := (allocate_eq_done_iff _ _ _ _).mp h
  obtain ⟨-, -, -, total, -, rfl⟩ := (Host.allocate_eq_done_iff _ _ _ _).mp ha
  have hm := own.migrationTarget_eq_none hv hp
  refine own.withVm hv rfl ⟨rfl, rfl, rfl⟩ (.withHost hg ⟨rfl, rfl⟩) (fun f w => ?_)
    (fun f w => ?_) (fun t ht => ?_)
  · have hown := own.resident_of_get? hv f
    have hhost := residentShare_of_get? hg w
    rw [residentShare_withHost, Table.get?_insert]
    grind [Vm.demand, Vm.totalMips]
  · have hown := own.incoming_of_get? hv f
    have hhost := incomingShare_of_get? hg w
    rw [incomingShare_withHost]
    grind
  · rw [hm] at ht
    cases ht

theorem release (own : pool.Ownership) {v : VmId} {s : HostId}
    (h : pool.release v = some (s, pool')) : pool'.Ownership := by
  obtain ⟨vm, hv, hs, rfl⟩ := release_eq_some h
  have hhosts : pool.SameHosts ((pool.withoutReservation v vm).updateHost s (·.release v)) :=
    (sameHosts_withoutReservation pool v vm).trans
      (.updateHost _ _ fun host => host.isSame_release v)
  refine own.withVm hv rfl (by simp) hhosts (fun f w => ?_) (fun f w => ?_) (fun t ht => ?_)
  · have hown := own.resident_of_get? hv f
    rw [residentShare_updateHost_release, residentShare_withoutReservation]
    grind [Vm.unplaced]
  · have hown := own.incoming_of_get? hv f
    rw [incomingShare_updateHost_release, incomingShare_withoutReservation]
    grind [Vm.unplaced]
  · cases ht

theorem startMigration (own : pool.Ownership) {v : VmId} {t : HostId}
    (h : pool.startMigration v t = .done pool') : pool'.Ownership := by
  obtain ⟨vm, s, target, target', hv, hs, hm, hne, ht, hr, rfl⟩ :=
    (startMigration_eq_done_iff _ _ _ _).mp h
  obtain ⟨-, -, -, total, -, rfl⟩ := (Host.reserve_eq_done_iff _ _ _ _).mp hr
  refine own.withVm hv rfl ⟨rfl, rfl, rfl⟩ (.withHost ht ⟨rfl, rfl⟩) (fun f w => ?_)
    (fun f w => ?_) (fun g hg => ?_)
  · have hown := own.resident_of_get? hv f
    have hhost := residentShare_of_get? ht w
    rw [residentShare_withHost]
    grind [Vm.movingTo, Vm.demand, Vm.totalMips]
  · have hown := own.incoming_of_get? hv f
    have hhost := incomingShare_of_get? ht w
    rw [incomingShare_withHost, Table.get?_insert]
    grind [Vm.movingTo, Vm.demand, Vm.totalMips]
  · cases hg
    exact ⟨s, hs, hne⟩

theorem finishMigration (own : pool.Ownership) {v : VmId} {s : HostId}
    (h : pool.finishMigration v = .done (s, pool')) : pool'.Ownership := by
  obtain ⟨vm, t, target, target', hv, hs, hm, ht, hl, rfl⟩ :=
    (finishMigration_eq_done_iff _ _ _ _).mp h
  obtain ⟨demand, total, hd, -, htarget⟩ := (Host.land_eq_done_iff _ _ _).mp hl
  have hsame : target.IsSame target' := by
    rw [htarget]
    exact ⟨rfl, rfl⟩
  have hhosts : pool.SameHosts ((pool.withHost t target').updateHost s (·.release v)) :=
    (SameHosts.withHost ht hsame).trans (.updateHost _ _ fun host => host.isSame_release v)
  -- What lands is what the record asks for, and the source is another host.
  have hdemand : demand = vm.demand := by
    have hown := own.incoming_of_get? hv t
    rw [incomingShare_of_get? ht, hd, hm, if_pos rfl, Option.some.injEq] at hown
    exact hown
  obtain ⟨s', hs', hne⟩ := own.moving v vm t hv hm
  rw [hs, Option.some.injEq] at hs'
  subst hdemand hs' htarget
  refine own.withVm hv rfl (by simp) hhosts (fun f w => ?_) (fun f w => ?_) (fun g hg => ?_)
  · have hown := own.resident_of_get? hv f
    have hhost := residentShare_of_get? ht w
    rw [residentShare_updateHost_release, residentShare_withHost, Table.get?_insert]
    grind [Vm.runningOn, Vm.demand, Vm.totalMips]
  · have hown := own.incoming_of_get? hv f
    have hhost := incomingShare_of_get? ht w
    rw [incomingShare_updateHost_release, incomingShare_withHost, Table.get?_erase]
    grind [Vm.runningOn]
  · cases hg

theorem cancelMigration (own : pool.Ownership) {v : VmId}
    (h : pool.cancelMigration v = .ok pool') : pool'.Ownership := by
  obtain ⟨vm, t, hv, hm, rfl⟩ := (cancelMigration_eq_ok_iff _ _ _).mp h
  refine own.withVm hv rfl (by simp) (sameHosts_withoutReservation pool v vm) (fun f w => ?_)
    (fun f w => ?_) (fun g hg => ?_)
  · have hown := own.resident_of_get? hv f
    rw [residentShare_withoutReservation]
    grind [Vm.staying, Vm.demand, Vm.totalMips]
  · have hown := own.incoming_of_get? hv f
    rw [incomingShare_withoutReservation]
    grind [Vm.staying]
  · cases hg

theorem updateVmMips (own : pool.Ownership) {v : VmId} {mips : α}
    (h : pool.updateVmMips v mips = .done pool') : pool'.Ownership := by
  obtain ⟨vm, hv, hm, hcases⟩ := (updateVmMips_eq_done_iff _ _ _ _).mp h
  rcases hcases with ⟨hp, rfl⟩ | ⟨g, host, host', hp, hg, hz, rfl⟩
  · refine own.withVm hv rfl ⟨rfl, rfl, rfl⟩ (.refl pool) (fun f w => ?_) (fun f w => ?_)
      (fun t ht => ?_)
    · have hown := own.resident_of_get? hv f
      grind
    · have hown := own.incoming_of_get? hv f
      grind
    · rw [hm] at ht
      cases ht
  · obtain ⟨current, available, room, total, -, -, -, -, -, rfl⟩ :=
      (Host.resize_eq_done_iff _ _ _ _).mp hz
    refine own.withVm hv rfl ⟨rfl, rfl, rfl⟩ (.withHost hg ⟨rfl, rfl⟩) (fun f w => ?_)
      (fun f w => ?_) (fun t ht => ?_)
    · have hown := own.resident_of_get? hv f
      have hhost := residentShare_of_get? hg w
      rw [residentShare_withHost, Table.get?_insert]
      grind
    · have hown := own.incoming_of_get? hv f
      have hhost := incomingShare_of_get? hg w
      rw [incomingShare_withHost]
      grind
    · rw [hm] at ht
      cases ht

theorem change (own : pool.Ownership) {op : Op α} (h : Change op pool pool') :
    pool'.Ownership := by
  cases h with
  | addHost h => exact own.addHost h
  | addVm h => exact own.addVm h
  | removeVm h => exact own.removeVm h
  | allocate h => exact own.allocate h
  | release h => exact own.release h
  | startMigration h => exact own.startMigration h
  | finishMigration h => exact own.finishMigration h
  | cancelMigration h => exact own.cancelMigration h
  | updateVmMips h => exact own.updateVmMips h

end Ownership

theorem Reachable.ownership {pool : Pool α} (h : pool.Reachable) : pool.Ownership :=
  h.invariant .empty fun _ _ _ own hc => own.change hc

/-! ### One host and one target -/

theorem Ownership.isResident_iff {pool : Pool α} (own : pool.Ownership) (h : HostId) (v : VmId) :
    pool.IsResident h v ↔ ∃ vm, pool.vms.get? v = some vm ∧ vm.host = some h := by
  simp only [Pool.isResident_iff, own.resident, placedDemand_eq_some_iff]
  constructor
  · rintro ⟨d, vm, hv, hh, -⟩
    exact ⟨vm, hv, hh⟩
  · rintro ⟨vm, hv, hh⟩
    exact ⟨_, vm, hv, hh, rfl⟩

theorem Ownership.isIncoming_iff {pool : Pool α} (own : pool.Ownership) (h : HostId) (v : VmId) :
    pool.IsIncoming h v ↔ ∃ vm, pool.vms.get? v = some vm ∧ vm.migrationTarget = some h := by
  simp only [Pool.isIncoming_iff, own.incoming, movingDemand_eq_some_iff]
  constructor
  · rintro ⟨d, vm, hv, hh, -⟩
    exact ⟨vm, hv, hh⟩
  · rintro ⟨vm, hv, hh⟩
    exact ⟨_, vm, hv, hh, rfl⟩

/-- Each VM runs on at most one host and is expected by at most one other one, as its record says,
and each entry of a host is what the VM asks for at present. -/
theorem single_ownership {pool : Pool α} (hr : pool.Reachable) :
    (∀ h v, pool.IsResident h v ↔ ∃ vm, pool.vms.get? v = some vm ∧ vm.host = some h)
      ∧ (∀ h v, pool.IsIncoming h v ↔
        ∃ vm, pool.vms.get? v = some vm ∧ vm.migrationTarget = some h)
      ∧ (∀ v vm t, pool.vms.get? v = some vm → vm.migrationTarget = some t →
        ∃ h, vm.host = some h ∧ h ≠ t)
      ∧ (∀ v h g, pool.IsResident h v → pool.IsResident g v → h = g)
      ∧ (∀ v h g, pool.IsIncoming h v → pool.IsIncoming g v → h = g)
      ∧ (∀ v h g, pool.IsResident h v → pool.IsIncoming g v → h ≠ g)
      ∧ (∀ h host v d, pool.hosts.get? h = some host →
        host.resident.get? v = some d ∨ host.incoming.get? v = some d →
        ∃ vm, pool.vms.get? v = some vm ∧ vm.demand = d) := by
  have own := hr.ownership
  refine ⟨own.isResident_iff, own.isIncoming_iff, own.moving, fun v h g hh hg => ?_,
    fun v h g hh hg => ?_, fun v h g hh hg => ?_, fun h host v d hh hd => ?_⟩
  · obtain ⟨vm, hv, hvh⟩ := (own.isResident_iff h v).mp hh
    obtain ⟨vm', hv', hvg⟩ := (own.isResident_iff g v).mp hg
    rw [hv, Option.some.injEq] at hv'
    rw [← hv', hvh, Option.some.injEq] at hvg
    exact hvg
  · obtain ⟨vm, hv, hvh⟩ := (own.isIncoming_iff h v).mp hh
    obtain ⟨vm', hv', hvg⟩ := (own.isIncoming_iff g v).mp hg
    rw [hv, Option.some.injEq] at hv'
    rw [← hv', hvh, Option.some.injEq] at hvg
    exact hvg
  · obtain ⟨vm, hv, hvh⟩ := (own.isResident_iff h v).mp hh
    obtain ⟨vm', hv', hvg⟩ := (own.isIncoming_iff g v).mp hg
    rw [hv, Option.some.injEq] at hv'
    subst hv'
    obtain ⟨s, hs, hne⟩ := own.moving v vm g hv hvg
    rw [hvh, Option.some.injEq] at hs
    exact hs ▸ hne
  · rcases hd with hd | hd
    · rw [← residentShare_of_get? hh, own.resident, placedDemand_eq_some_iff] at hd
      obtain ⟨vm, hv, -, hdemand⟩ := hd
      exact ⟨vm, hv, hdemand⟩
    · rw [← incomingShare_of_get? hh, own.incoming, movingDemand_eq_some_iff] at hd
      obtain ⟨vm, hv, -, hdemand⟩ := hd
      exact ⟨vm, hv, hdemand⟩

/-- A VM is placed on one of two hosts, resized, and starts to migrate to the other one. -/
def migratingRun : List (Op Float) :=
  let host : HostSpec Float := ⟨"host", 4, 1000, 8192, 1000, 100000, .linear 200 0.5⟩
  [.addHost host, .addHost host, .addVm ⟨"tenant", 2, 500, 1024, 100, 1000⟩, .allocate 0 0,
    .updateVmMips 0 600, .startMigration 0 1]

theorem migratingRun_owner : ∃ pool : Pool Float, empty.run migratingRun = .ok pool
    ∧ pool.Reachable ∧ pool.IsResident 0 0 ∧ pool.IsIncoming 1 0
    ∧ ∀ h, pool.IsResident h 0 → h = 0 := by
  have hrun : (empty.run migratingRun).toOption.any (fun pool =>
      (pool.vms.get? 0).any fun vm => vm.host == some 0 && vm.migrationTarget == some 1)
      = true := by
    decide +kernel
  obtain ⟨pool, hp, htest⟩ := Checked.eq_ok_of_any hrun
  have hr := reachable_of_run hp
  obtain ⟨hresident, hincoming, -, hone, -⟩ := single_ownership hr
  simp only [Option.any_eq_true, Bool.and_eq_true, beq_iff_eq] at htest
  obtain ⟨vm, hv, hh, ht⟩ := htest
  have h0 := (hresident 0 0).mpr ⟨vm, hv, hh⟩
  exact ⟨pool, hp, hr, h0, (hincoming 1 0).mpr ⟨vm, hv, ht⟩, fun h hh => hone 0 h 0 hh h0⟩

end Datacenter.Pool
