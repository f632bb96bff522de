import Mathlib.Data.Rat.Sqrt
import Datacenter.Proofs.PlanTracking

/-!
# Migrating and placing anew

A migration gives the target the demand of the VM in two steps: it is kept there first, and becomes
a resident's when the VM lands. With exact compute rates the second step takes back what the first
one added, and leaves what placing the VM there would have left. So a migration that is cancelled
never was, and one that is finished is a release and a placement.

Main statements: `Host.cancel_of_reserve`, `Host.land_of_reserve` and `migration_is_replacement`.
-/

namespace Datacenter

variable {K : Type} [ExactScalar K]

/-! ### Hosts -/

theorem Resources.sub_of_add {a b c : Resources K} (h : a.add b = .ok c) (ha : 0 ≤ a.mips) :
    c.sub b = a := by
  obtain ⟨hm, hs⟩ := (add_eq_ok_iff a b c).mp h
  refine eq_of_stock_eq ?_ fun k => ?_
  · rw [mips_sub, hm, add_sub_cancel_right, Scalar.larger_eq_max, max_eq_left ha]
  · rw [stock_sub, hs, Nat.add_sub_cancel]

namespace Host

variable {host host' : Host K} {v : VmId} {demand : Resources K}

theorem cancel_of_reserve (h : host.reserve v demand = .done host')
    (hpos : 0 ≤ host.incomingTotal.mips) : host'.cancel v = host := by
  obtain ⟨-, hi, -, total, ht, rfl⟩ := (reserve_eq_done_iff _ _ _ _).mp h
  have hv : (host.incoming.insert v demand).get? v = some demand := by simp
  rw [cancel_of_get? hv]
  simp only [Table.erase_insert hi, Resources.sub_of_add ht hpos]

/-- What has been reserved lands as if it were placed. -/
theorem land_of_reserve (h : host.reserve v demand = .done host')
    (hpos : 0 ≤ host.incomingTotal.mips) : host'.land v = host.allocate v demand := by
  have hcancel := cancel_of_reserve h hpos
  obtain ⟨hr, hi, hs, total, -, rfl⟩ := (reserve_eq_done_iff _ _ _ _).mp h
  have hv : (host.incoming.insert v demand).get? v = some demand := by simp
  have hfree := (holds_eq_false_iff host v).mpr ⟨hr, hi⟩
  simp only [land, hv, hcancel, allocate, hfree, hs]
  rfl

end Host

/-! ### Pools -/

namespace Pool

variable {pool started : Pool K} {v : VmId} {t : HostId}

theorem Reachable.incomingTotal_nonneg (hr : pool.Reachable) (hn : pool.NonNegative) {h : HostId}
    {host : Host K} (hh : pool.hosts.get? h = some host) : 0 ≤ host.incomingTotal.mips := by
  refine le_trans (Table.total_nonneg fun v d hd => ?_) (hr.covers_mips h host hh).incoming
  rw [← incomingShare_of_get? hh, hr.ownership.incoming, movingDemand_eq_some_iff] at hd
  obtain ⟨vm, hv, -, rfl⟩ := hd
  exact hn v vm hv

theorem cancelMigration_of_startMigration (hr : pool.Reachable) (hn : pool.NonNegative)
    (h : pool.startMigration v t = .done started) : started.cancelMigration v = .ok pool := by
  obtain ⟨vm, s, target, target', hv, hs, hm, hne, ht, hreserve, rfl⟩ :=
    (startMigration_eq_done_iff _ _ _ _).mp h
  have hcancel := Host.cancel_of_reserve hreserve (hr.incomingTotal_nonneg hn ht)
  have hstays : (vm.movingTo t).staying = vm := by
    cases vm
    cases hm
    rfl
  have hknown : ((pool.withHost t target').withVm v (vm.movingTo t)).hosts.get? t
      = some target' := by simp
  have hwithout : ((pool.withHost t target').withVm v (vm.movingTo t)).withoutReservation v
      (vm.movingTo t) = ((pool.withHost t target').withVm v (vm.movingTo t)).withHost t target :=
    hcancel ▸ updateHost_of_get? hknown (·.cancel v)
  refine (cancelMigration_eq_ok_iff _ _ _).mpr ⟨vm.movingTo t, t, by simp, rfl, ?_⟩
  rw [hwithout, withHost_withVm, withHost_withHost, withVm_withVm, withHost_of_get? ht, hstays,
    withVm_of_get? hv]

/-- The VM lands as it would have been placed after a release. -/
theorem finishMigration_of_startMigration (hr : pool.Reachable) (hn : pool.NonNegative)
    (h : pool.startMigration v t = .done started) :
    ∃ s released finished, pool.release v = some (s, released)
      ∧ released.allocate v t = .done finished
      ∧ started.finishMigration v = .done (s, finished) := by
  have own := hr.ownership
  obtain ⟨vm, s, target, target', hv, hs, hm, hne, ht, hreserve, rfl⟩ :=
    (startMigration_eq_done_iff _ _ _ _).mp h
  obtain ⟨source, hsource⟩ := own.exists_host hv hs
  obtain ⟨released, hrelease⟩ := own.release_eq_some hv hs
  obtain ⟨record, hrecord, -, hreleased⟩ := release_eq_some hrelease
  rw [hv, Option.some.injEq] at hrecord
  subst hrecord
  have hsettled : released = (pool.withHost s (source.release v)).withVm v vm.unplaced := by
    rw [hreleased, withoutReservation, hm]
    exact congrArg (·.withVm v vm.unplaced) (updateHost_of_get? hsource _)
  -- The target has room for the VM, as it could reserve it.
  obtain ⟨hresident, hincoming, hroom, -⟩ := (Host.reserve_eq_done_iff _ _ _ _).mp hreserve
  obtain ⟨placed, hplaced⟩ : ∃ placed, target.allocate v vm.demand = .done placed := by
    rcases (hr.balanced t target ht).allocate_cases hresident hincoming vm.demand with
      hdone | ⟨d, hshort, -⟩
    · exact hdone
    · rw [hroom] at hshort
      cases hshort
  have hland := (Host.land_of_reserve hreserve (hr.incomingTotal_nonneg hn ht)).trans hplaced
  have hfinished : (released.withHost t placed).withVm v (vm.runningOn t)
      = ((((pool.withHost t target').withVm v (vm.movingTo t)).withHost t placed).updateHost s
          (·.release v)).withVm v ((vm.movingTo t).runningOn t) := by
    have hleft : (((pool.withHost t target').withVm v (vm.movingTo t)).withHost t
        placed).hosts.get? s = some source := by simp [hne, hsource]
    rw [updateHost_of_get? hleft, hsettled]
    simp only [withHost_withVm, withVm_withVm, withHost_withHost]
    rw [withHost_comm hne hsource]
    rfl
  exact ⟨s, released, (released.withHost t placed).withVm v (vm.runningOn t), hrelease,
    (allocate_eq_done_iff _ _ _ _).mpr ⟨vm.unplaced, target, placed, by simp [hsettled], rfl,
      by simp [hsettled, hne.symm, ht], hplaced, rfl⟩,
    (finishMigration_eq_done_iff _ _ _ _).mpr ⟨vm.movingTo t, t, target', placed, by simp, hs, rfl,
      by simp, hland, hfinished⟩⟩

/-- A migration that is cancelled leaves nothing behind, and one that is finished leaves what a
release and a placement leave: the same records, the same entries in the same order, and the same
totals. -/
theorem migration_is_replacement (hr : pool.Reachable) (hn : pool.NonNegative)
    (h : pool.startMigration v t = .done started) :
    started.cancelMigration v = .ok pool
      ∧ ∃ s released finished, pool.release v = some (s, released)
        ∧ released.allocate v t = .done finished
        ∧ started.finishMigration v = .done (s, finished) :=
  ⟨cancelMigration_of_startMigration hr hn h, finishMigration_of_startMigration hr hn h⟩

/-- A VM that shares both its hosts with others, one of which is on its way too. -/
def sharedRun : List (Op ℚ) :=
  let host : HostSpec ℚ := ⟨"host", 8, 1000, 16384, 1000, 100000, .linear 200 (1 / 2)⟩
  let vm (mips : ℚ) : VmSpec ℚ := ⟨"tenant", 2, mips, 1024, 100, 1000⟩
  [.addHost host, .addHost host, .addVm (vm 500), .addVm (vm (1000 / 3)), .addVm (vm 250),
    .allocate 0 0, .allocate 1 0, .allocate 2 1, .startMigration 1 1]

theorem sharedRun_replacement : ∃ pool started : Pool ℚ, empty.run sharedRun = .ok pool
    ∧ pool.Reachable ∧ pool.NonNegative ∧ pool.startMigration 0 1 = .done started
    ∧ started.cancelMigration 0 = .ok pool
    ∧ ∃ s released finished, pool.release 0 = some (s, released)
      ∧ released.allocate 0 1 = .done finished
      ∧ started.finishMigration 0 = .done (s, finished) := by
  have hrun : (empty.run sharedRun).toOption.any (fun pool =>
      (pool.vms.entries.all fun e => decide (0 ≤ e.2.demand.mips))
        && (match pool.startMigration 0 1 with
          | .done _ => true
          | _ => false)) = true := by
    decide +kernel
  obtain ⟨pool, hp, htest⟩ := Checked.eq_ok_of_any hrun
  have hr := reachable_of_run hp
  rw [Bool.and_eq_true] at htest
  have hn := NonNegative.of_all htest.1
  cases hs : pool.startMigration 0 1 with
  | done started =>
    exact ⟨pool, started, hp, hr, hn, hs, migration_is_replacement hr hn hs⟩
  | refused reason => simp [hs] at htest
  | fault e => simp [hs] at htest

end Pool

end Datacenter
