import Datacenter.Proofs.Waiting

/-!
# Releases

A VM that has been released runs nowhere and does not wait. A migration that is still in flight for
it lapses, an undone plan puts back no more than was there, and only what waits is tried again. So
the VM stays out until it is placed directly.

Main statements: `Retired.obey` and `release_is_final`.
-/

namespace Datacenter.Simulation

variable {α π : Type} {sim sim' : Simulation α π} {v : VmId}

/-- The VM is in the pool, runs nowhere and does not wait. -/
structure Retired (sim : Simulation α π) (v : VmId) : Prop where
  idle : sim.pool.runs? v = some false
  absent : v ∉ sim.pending.toList

theorem SameWaiting.retired (h : sim.SameWaiting sim') (hv : sim.Retired v) : sim'.Retired v := by
  refine ⟨(h.runs v).trans hv.idle, ?_⟩
  rw [h.pending]
  exact hv.absent

variable [Scalar α]

theorem Retired.ne_nextVm (h : sim.Retired v) (own : sim.pool.Ownership) :
    v ≠ sim.pool.nextVm := by
  intro heq
  have hidle := h.idle
  rw [heq, own.runs?_nextVm] at hidle
  cases hidle

/-! ### Releasing -/

theorem releaseVm_effect (own : sim.pool.Ownership) {answer : Option HostId}
    (h : (sim.releaseVm v).result = .ok (answer, sim')) :
    sim'.pending.toList = sim.pending.toList.filter (fun w => w ≠ v)
      ∧ ∀ w, sim'.pool.runs? w
        = if w = v then (sim.pool.runs? w).map fun _ => false else sim.pool.runs? w := by
  have hplacement := Pool.placement_release own v
  rcases releaseVm_cases h with ⟨hnone, rfl⟩ | ⟨host, pool, hdone, rfl⟩
  · refine ⟨Queue.toList_filter _ _, fun w => ?_⟩
    rw [hnone, Option.map_none, Option.getD_none] at hplacement
    rw [Pool.runs?_eq, hplacement]
    split
    · rw [Option.map_map, Option.map_map]
      rfl
    · rfl
  · refine ⟨Queue.toList_filter _ _, fun w => ?_⟩
    rw [hdone, Option.map_some, Option.getD_some] at hplacement
    rw [pool_meterPower, Pool.runs?_eq, hplacement, Pool.runs?_eq]
    split
    · rw [Option.map_map, Option.map_map]
      rfl
    · rfl

theorem retired_of_releaseVm (own : sim.pool.Ownership) {vm : Vm α}
    (hv : sim.pool.vms.get? v = some vm) {answer : Option HostId}
    (h : (sim.releaseVm v).result = .ok (answer, sim')) : sim'.Retired v := by
  obtain ⟨hpending, hruns⟩ := releaseVm_effect own h
  refine ⟨?_, ?_⟩
  · rw [hruns, if_pos rfl, Pool.runs?, hv]
    rfl
  · rw [hpending]
    simp

/-! ### Later commands -/

variable [AllocationPolicy α π]

theorem Retired.submitVm (h : sim.Retired v) (own : sim.pool.Ownership) {spec : VmSpec α}
    {w : VmId} (hsubmit : (sim.submitVm spec).result = .ok (w, sim')) :
    sim'.pool.runs? v = some false := by
  have hne := h.ne_nextVm own
  obtain ⟨pool, hadd, hcases⟩ := submitVm_cases hsubmit
  obtain ⟨rfl, hadded⟩ := Pool.addVm_runs? hadd
  have hidle : pool.runs? v = some false := by
    rw [hadded, if_neg hne]
    exact h.idle
  rcases hcases with rfl | ⟨host, pool', hallocate, rfl⟩
  · exact hidle
  · obtain ⟨-, hafter⟩ := Pool.allocate_runs? (own.change (.addVm hadd)) hallocate
    rw [pool_meterPower, hafter, if_neg hne]
    exact hidle

variable [KeepsLedger α π]

theorem Retired.step (h : sim.Retired v) (own : sim.pool.Ownership)
    (hstep : sim.step.result = .ok sim') : sim'.pool.runs? v = some false := by
  obtain ⟨landed, retried, last, hlanded, hretried, hlast, rfl⟩ := step_cases hstep
  have hland := (SameWaiting.landUntil hlanded).retired h
  have hlandedOwn := ownership_of_landUntil own hlanded
  have hown : ({ landed with
      time := sim.time + sim.config.stepInterval
      pending := .empty } : Simulation α π).pool.Ownership :=
    hlandedOwn
  -- Only VMs that wait are tried again.
  obtain ⟨hown', hothers, -⟩ := runs?_of_fold_retry hown hretried
  have hidle : retried.pool.runs? v = some false := (hothers v hland.absent).trans hland.idle
  rcases hlast with rfl | ⟨started, hoptimize⟩
  · exact hidle
  · rw [pool_meterPower, (SameWaiting.optimize hown' hoptimize).runs]
    exact hidle

theorem Retired.obey (h : sim.Retired v) (hq : sim.Queued) {command : Command α}
    (hne : command ≠ .placeVm v) (hobey : (sim.obey command).result = .ok sim') :
    sim'.Retired v := by
  have own := hq.reachable.ownership
  obtain ⟨hqueue, -⟩ := hq.obey hobey
  have habsent := h.absent
  cases command with
  | addHost spec =>
    obtain ⟨id, hadd⟩ := Logged.exists_of_snd hobey
    obtain ⟨pool, hpool, rfl⟩ := addHost_cases hadd
    obtain ⟨-, -, rfl⟩ := (Pool.addHost_eq_ok_iff _ _ _ _).mp hpool
    exact ⟨h.idle, habsent⟩
  | submitVm spec =>
    obtain ⟨w, hsubmit⟩ := Logged.exists_of_snd hobey
    refine ⟨h.submitVm own hsubmit, ?_⟩
    rw [hqueue, queueAfter]
    simp [habsent, h.ne_nextVm own]
  | placeVm w =>
    obtain ⟨answer, hplace⟩ := Logged.exists_of_snd hobey
    have hother : v ≠ w := fun heq => hne (heq ▸ rfl)
    rcases placeVm_cases hplace with ⟨host, pool, -, hallocate, rfl⟩ | ⟨error, -, rfl⟩
    · obtain ⟨-, hafter⟩ := Pool.allocate_runs? own hallocate
      refine ⟨?_, habsent⟩
      rw [pool_meterPower, hafter, if_neg hother]
      exact h.idle
    · exact h
  | releaseVm w =>
    obtain ⟨answer, hrelease⟩ := Logged.exists_of_snd hobey
    obtain ⟨hpending, hruns⟩ := releaseVm_effect own hrelease
    refine ⟨?_, ?_⟩
    · rw [hruns, h.idle]
      split
      · rfl
      · rfl
    · rw [hpending]
      simp [habsent]
  | updateVmMips w mips =>
    obtain ⟨answer, hresize⟩ := Logged.exists_of_snd hobey
    rcases updateVmMips_cases hresize with rfl | ⟨pool, hdone, rfl⟩
    · exact h
    · have hsame := Pool.runs?_of_placement (Pool.updateVmMips_placement hdone v)
      exact ⟨hsame.trans h.idle, habsent⟩
  | applyPlan plan =>
    obtain ⟨answer, happly⟩ := Logged.exists_of_snd hobey
    exact (SameWaiting.applyPlan own happly).retired h
  | optimize =>
    obtain ⟨started, hoptimize⟩ := Logged.exists_of_snd hobey
    exact (SameWaiting.optimize own hoptimize).retired h
  | step =>
    refine ⟨h.step own hobey, ?_⟩
    rw [hqueue, queueAfter]
    simp [habsent]

/-! ### Runs -/

theorem Retired.run (h : sim.Retired v) (hq : sim.Queued) {commands : List (Command α)}
    (hne : .placeVm v ∉ commands) (hrun : (sim.run commands).result = .ok sim') :
    sim'.Queued ∧ sim'.Retired v := by
  refine run_invariant (P := fun last => last.Queued ∧ last.Retired v) ⟨hq, h⟩ ?_ hrun
  intro before command after state next hcommands _ hstate hnext
  obtain ⟨hqueued, hretired⟩ := hstate
  have hother : command ≠ .placeVm v := by
    intro heq
    rw [hcommands, heq] at hne
    simp at hne
  exact ⟨(hqueued.obey hnext).2, hretired.obey hqueued hother hnext⟩

/-- A VM that was released runs nowhere, moves nowhere, has no share of a host and does not wait.
No later command changes this, up to one that places the VM. -/
theorem release_is_final {config : Config α} {policy : π} {id : Nat}
    {before after : List (Command α)} {vm : Vm α} {answer : Option HostId}
    {released last : Simulation α π}
    (hbefore : ((create config policy id).run before).result = .ok sim)
    (hv : sim.pool.vms.get? v = some vm)
    (hrelease : (sim.releaseVm v).result = .ok (answer, released))
    (hne : .placeVm v ∉ after) (hafter : (released.run after).result = .ok last) :
    last.pool.placement v = some .unplaced
      ∧ (∀ h, ¬last.pool.IsResident h v ∧ ¬last.pool.IsIncoming h v)
      ∧ v ∉ last.pending.toList := by
  have hq : sim.Queued := queued_of_run (queued_create config policy id) hbefore
  have hobey : (sim.obey (.releaseVm v)).result = .ok released :=
    Logged.result_map_of_ok Prod.snd hrelease
  obtain ⟨hlast, hretired⟩ := (retired_of_releaseVm hq.reachable.ownership hv hrelease).run
    (hq.obey hobey).2 hne hafter
  have own := hlast.reachable.ownership
  obtain ⟨record, hrecord, hhost⟩ := (Pool.runs?_eq_some_false_iff _ _).mp hretired.idle
  have htarget := own.migrationTarget_eq_none hrecord hhost
  refine ⟨?_, fun h => ⟨fun hresident => ?_, fun hincoming => ?_⟩, hretired.absent⟩
  · rw [Pool.placement_of_get? hrecord, hhost, htarget]
    rfl
  · obtain ⟨vm', hvm', hplaced⟩ := (own.isResident_iff h v).mp hresident
    rw [hrecord, Option.some.injEq] at hvm'
    rw [← hvm', hhost] at hplaced
    cases hplaced
  · obtain ⟨vm', hvm', hmoving⟩ := (own.isIncoming_iff h v).mp hincoming
    rw [hrecord, Option.some.injEq] at hvm'
    rw [← hvm', htarget] at hmoving
    cases hmoving

/-- A plan that is undone since it names the released VM, which is resized and released again while
its migration is still in flight, before steps land it and try the VM that waits. -/
def laterRun : List (Command Float) :=
  let spec : VmSpec Float := ⟨"tenant", 1, 5000, 1024, 100, 1000⟩
  [.submitVm spec, .applyPlan [planned 2 0 1, planned 0 0 2], .updateVmMips 0 600, .step,
    .optimize, .releaseVm 0, .step]

theorem movingVm_released : ∃ sim released last, (busyStart.run busyRun).result = .ok sim
    ∧ sim.pool.placement 0 = some ⟨some 0, some 1⟩
    ∧ (sim.releaseVm 0).result = .ok (some 0, released)
    ∧ released.inFlight.map InFlight.vm = [0]
    ∧ (released.run laterRun).result = .ok last ∧ last.pending.toList = [3]
    ∧ last.pool.placement 0 = some .unplaced
    ∧ (∀ h, ¬last.pool.IsResident h 0 ∧ ¬last.pool.IsIncoming h 0) := by
  have hrun : ((busyStart.run busyRun).result.toOption.any fun sim =>
      sim.pool.placement 0 == some ⟨some 0, some 1⟩
        && (sim.releaseVm 0).result.toOption.any fun r =>
          r.1 == some 0 && r.2.inFlight.map InFlight.vm == [0]
            && (r.2.run laterRun).result.toOption.any fun last => last.pending.toList == [3])
      = true := by
    decide +kernel
  obtain ⟨sim, hsim, htest⟩ := Checked.eq_ok_of_any hrun
  rw [Bool.and_eq_true, beq_iff_eq] at htest
  obtain ⟨hmoving, hreleased⟩ := htest
  obtain ⟨⟨answer, released⟩, hrelease, htest⟩ := Checked.eq_ok_of_any hreleased
  rw [Bool.and_eq_true, Bool.and_eq_true, beq_iff_eq, beq_iff_eq] at htest
  obtain ⟨⟨rfl, hflight⟩, hlater⟩ := htest
  obtain ⟨last, hlast, hpending⟩ := Checked.eq_ok_of_any hlater
  obtain ⟨vm, hv, -⟩ := (Pool.placement_eq_some_iff _ _ _).mp hmoving
  have hne : .placeVm 0 ∉ laterRun := by simp [laterRun]
  obtain ⟨hidle, hhosts, -⟩ := release_is_final hsim hv hrelease hne hlast
  exact ⟨sim, released, last, hsim, hmoving, hrelease, hflight, hlast, beq_iff_eq.mp hpending,
    hidle, hhosts⟩

end Datacenter.Simulation
