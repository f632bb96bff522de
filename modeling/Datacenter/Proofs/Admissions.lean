import Datacenter.Proofs.Placements

/-!
# Admissions

A host of a reachable pool has a VM exactly if the record of the VM names it, and hosts are
balanced. So a VM that runs nowhere, or that runs elsewhere and moves nowhere, is refused by a host
for nothing but a shortage, and a VM that moves always lands. Records and room decide how operations
end.

Main statements: `Reachable.exists_allocate_iff` to `exists_cancelMigration_iff`.
-/

namespace Datacenter.Pool

variable {α : Type} [Scalar α] {pool : Pool α} {v : VmId} {vm : Vm α} {h : HostId} {host : Host α}

/-! ### What hosts have of a VM -/

namespace Ownership

variable (own : pool.Ownership) (hv : pool.vms.get? v = some vm)
  (hh : pool.hosts.get? h = some host)

include own hv hh

theorem get?_resident (hp : vm.host = some h) : host.resident.get? v = some vm.demand := by
  rw [← residentShare_of_get? hh, own.resident_of_get? hv, if_pos hp]

theorem get?_incoming (hm : vm.migrationTarget = some h) :
    host.incoming.get? v = some vm.demand := by
  rw [← incomingShare_of_get? hh, own.incoming_of_get? hv, if_pos hm]

theorem resident_eq_none (hp : vm.host ≠ some h) : host.resident.get? v = none := by
  rw [← residentShare_of_get? hh, own.resident_of_get? hv, if_neg hp]

theorem incoming_eq_none (hm : vm.migrationTarget ≠ some h) : host.incoming.get? v = none := by
  rw [← incomingShare_of_get? hh, own.incoming_of_get? hv, if_neg hm]

end Ownership

/-! ### Room, or a shortage -/

theorem canAllocate_of_get? (hv : pool.vms.get? v = some vm) (hh : pool.hosts.get? h = some host) :
    pool.canAllocate v h = (do Host.roomOrRefuse (← host.shortage vm.demand)) := by
  rw [canAllocate, hv]
  dsimp only
  rw [hh]

theorem canAllocate_eq_done_iff (hv : pool.vms.get? v = some vm) :
    pool.canAllocate v h = .done ()
      ↔ ∃ host, pool.hosts.get? h = some host ∧ host.shortage vm.demand = .ok none := by
  cases hh : pool.hosts.get? h with
  | none => simp [canAllocate, hv, hh]
  | some host =>
    simp [canAllocate_of_get? hv hh, Outcome.bind_eq_done_iff, Outcome.lift_eq]

namespace Reachable

variable (hr : pool.Reachable)

include hr

theorem allocate_cases (hv : pool.vms.get? v = some vm) (hidle : vm.host = none)
    (hh : pool.hosts.get? h = some host) :
    (∃ pool', pool.allocate v h = .done pool')
      ∨ ∃ d, host.shortage vm.demand = .ok (some d)
        ∧ pool.allocate v h = .refused (.notEnough d) := by
  have own := hr.ownership
  have hm := own.migrationTarget_eq_none hv hidle
  have hresident := own.resident_eq_none hv hh (by simp [hidle])
  have hincoming := own.incoming_eq_none hv hh (by simp [hm])
  simp only [Pool.allocate, hv, hidle, Option.isSome_none, Bool.false_eq_true, if_false, hh]
  rcases (hr.balanced h host hh).allocate_cases hresident hincoming vm.demand with
    ⟨host', hdone⟩ | ⟨d, hshort, hrefused⟩
  · exact .inl ⟨_, by rw [hdone]; rfl⟩
  · exact .inr ⟨d, hshort, by rw [hrefused]; rfl⟩

theorem allocate_of_room (hv : pool.vms.get? v = some vm) (hidle : vm.host = none)
    (hh : pool.hosts.get? h = some host) (hroom : host.shortage vm.demand = .ok none) :
    ∃ pool', pool.allocate v h = .done pool' := by
  rcases hr.allocate_cases hv hidle hh with hdone | ⟨d, hshort, -⟩
  · exact hdone
  · rw [hroom] at hshort
    cases hshort

theorem startMigration_cases {s : HostId} (hv : pool.vms.get? v = some vm) (hs : vm.host = some s)
    (hm : vm.migrationTarget = none) (hne : s ≠ h) (hh : pool.hosts.get? h = some host) :
    (∃ pool', pool.startMigration v h = .done pool')
      ∨ ∃ d, host.shortage vm.demand = .ok (some d)
        ∧ pool.startMigration v h = .refused (.notEnough d) := by
  have hresident := hr.ownership.resident_eq_none hv hh (by simpa [hs] using hne)
  have hincoming := hr.ownership.incoming_eq_none hv hh (by simp [hm])
  simp only [Pool.startMigration, hv, hs, Vm.isMigrating, hm, Option.isSome_none,
    Bool.false_eq_true, if_false, if_neg hne, hh]
  rcases (hr.balanced h host hh).reserve_cases hresident hincoming vm.demand with
    ⟨host', hdone⟩ | ⟨d, hshort, hrefused⟩
  · exact .inl ⟨_, by rw [hdone]; rfl⟩
  · exact .inr ⟨d, hshort, by rw [hrefused]; rfl⟩

theorem startMigration_of_room {s : HostId} (hv : pool.vms.get? v = some vm)
    (hs : vm.host = some s) (hm : vm.migrationTarget = none) (hne : s ≠ h)
    (hh : pool.hosts.get? h = some host) (hroom : host.shortage vm.demand = .ok none) :
    ∃ pool', pool.startMigration v h = .done pool' := by
  rcases hr.startMigration_cases hv hs hm hne hh with hdone | ⟨d, hshort, -⟩
  · exact hdone
  · rw [hroom] at hshort
    cases hshort

/-! ### When operations are done -/

theorem exists_allocate_iff (v : VmId) (h : HostId) :
    (∃ pool', pool.allocate v h = .done pool')
      ↔ (∃ vm, pool.vms.get? v = some vm ∧ vm.host = none)
        ∧ (∃ host, pool.hosts.get? h = some host) ∧ pool.canAllocate v h = .done () := by
  constructor
  · rintro ⟨pool', hdone⟩
    obtain ⟨vm, host, host', hv, hidle, hh, ha, -⟩ := (allocate_eq_done_iff _ _ _ _).mp hdone
    have hroom := ((Host.allocate_eq_done_iff _ _ _ _).mp ha).2.2.1
    exact ⟨⟨vm, hv, hidle⟩, ⟨host, hh⟩, (canAllocate_eq_done_iff hv).mpr ⟨host, hh, hroom⟩⟩
  · rintro ⟨⟨vm, hv, hidle⟩, -, hfits⟩
    obtain ⟨host, hh, hroom⟩ := (canAllocate_eq_done_iff hv).mp hfits
    exact hr.allocate_of_room hv hidle hh hroom

/-- A VM that runs nowhere is refused for what `canAllocate` says. -/
theorem allocate_eq_refused_iff (hv : pool.vms.get? v = some vm) (hidle : vm.host = none)
    (h : HostId) (reason : Refusal) :
    pool.allocate v h = .refused reason ↔ pool.canAllocate v h = .refused reason := by
  cases hh : pool.hosts.get? h with
  | none => simp [Pool.allocate, canAllocate, hv, hidle, hh]
  | some host =>
    rw [canAllocate_of_get? hv hh]
    rcases hr.allocate_cases hv hidle hh with ⟨pool', hdone⟩ | ⟨d, hshort, hrefused⟩
    · have hfits := ((hr.exists_allocate_iff v h).mp ⟨pool', hdone⟩).2.2
      rw [canAllocate_of_get? hv hh] at hfits
      simp [hdone, hfits]
    · rw [hrefused, hshort, Outcome.lift_eq, Outcome.ofChecked_ok, Outcome.done_bind,
        Host.roomOrRefuse, Outcome.refused.injEq, Outcome.refused.injEq]

theorem exists_startMigration_iff (v : VmId) (t : HostId) :
    (∃ pool', pool.startMigration v t = .done pool')
      ↔ (∃ vm s, pool.vms.get? v = some vm ∧ vm.host = some s ∧ vm.isMigrating = false ∧ s ≠ t)
        ∧ (∃ target, pool.hosts.get? t = some target) ∧ pool.canAllocate v t = .done () := by
  constructor
  · rintro ⟨pool', hdone⟩
    obtain ⟨vm, s, target, target', hv, hs, hm, hne, ht, hreserve, -⟩ :=
      (startMigration_eq_done_iff _ _ _ _).mp hdone
    have hroom := ((Host.reserve_eq_done_iff _ _ _ _).mp hreserve).2.2.1
    exact ⟨⟨vm, s, hv, hs, by simp [Vm.isMigrating, hm], hne⟩, ⟨target, ht⟩,
      (canAllocate_eq_done_iff hv).mpr ⟨target, ht, hroom⟩⟩
  · rintro ⟨⟨vm, s, hv, hs, hm, hne⟩, -, hfits⟩
    obtain ⟨target, ht, hroom⟩ := (canAllocate_eq_done_iff hv).mp hfits
    exact hr.startMigration_of_room hv hs (by simpa [Vm.isMigrating] using hm) hne ht hroom

theorem exists_finishMigration_iff (v : VmId) :
    (∃ s pool', pool.finishMigration v = .done (s, pool'))
      ↔ ∃ vm, pool.vms.get? v = some vm ∧ vm.isMigrating = true := by
  constructor
  · rintro ⟨s, pool', hdone⟩
    obtain ⟨vm, t, target, target', hv, hs, hm, -⟩ := (finishMigration_eq_done_iff _ _ _ _).mp hdone
    exact ⟨vm, hv, by simp [Vm.isMigrating, hm]⟩
  · rintro ⟨vm, hv, hm⟩
    obtain ⟨t, ht⟩ := Option.isSome_iff_exists.mp hm
    obtain ⟨s, hs, -⟩ := hr.ownership.moving v vm t hv ht
    obtain ⟨target, htarget⟩ := hr.ownership.exists_target hv ht
    have hincoming := hr.ownership.get?_incoming hv htarget ht
    obtain ⟨total, htotal⟩ := (hr.balanced t target htarget).add_landing_eq_ok hincoming
    have hland := (Host.land_eq_done_iff _ _ _).mpr ⟨_, total, hincoming, htotal, rfl⟩
    exact ⟨s, _, (finishMigration_eq_done_iff _ _ _ _).mpr
      ⟨vm, t, target, _, hv, hs, ht, htarget, hland, rfl⟩⟩

theorem exists_release_iff (v : VmId) (s : HostId) :
    (∃ pool', pool.release v = some (s, pool'))
      ↔ ∃ vm, pool.vms.get? v = some vm ∧ vm.host = some s := by
  constructor
  · rintro ⟨pool', hdone⟩
    obtain ⟨vm, hv, hs, -⟩ := release_eq_some hdone
    exact ⟨vm, hv, hs⟩
  · rintro ⟨vm, hv, hs⟩
    exact hr.ownership.release_eq_some hv hs

end Reachable

theorem exists_cancelMigration_iff (pool : Pool α) (v : VmId) :
    (∃ pool', pool.cancelMigration v = .ok pool')
      ↔ ∃ vm, pool.vms.get? v = some vm ∧ vm.isMigrating = true := by
  simp only [cancelMigration_eq_ok_iff, Vm.isMigrating, Option.isSome_iff_exists]
  constructor
  · rintro ⟨_, vm, t, hv, ht, -⟩
    exact ⟨vm, hv, t, ht⟩
  · rintro ⟨vm, hv, t, ht⟩
    exact ⟨_, vm, t, hv, ht, rfl⟩

end Datacenter.Pool
