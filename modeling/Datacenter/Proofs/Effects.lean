import Datacenter.Proofs.PlanAtomicity

/-!
# Effects of operations

Each operation of a simulation is told once: what the pool does in it, and which fields of the
simulation it writes if it answers.

Main statements: `placeVm_cases`, `land_cases`, `applyPlan_effect` and `step_cases`.
-/

namespace Datacenter

variable {α : Type}

theorem Logged.result_map_of_ok {α β γ : Type} {x : Logged α β} {value : β} (f : β → γ)
    (h : x.result = .ok value) : (f <$> x).result = .ok (f value) := by
  change (x >>= fun value => pure (f value)).result = _
  rw [result_bind, h]
  rfl

theorem Logged.exists_of_snd {β γ : Type} {x : Logged α (β × γ)} {last : γ}
    (h : (Prod.snd <$> x).result = .ok last) : ∃ answer, x.result = .ok (answer, last) := by
  have hbind : (Prod.snd <$> x : Logged α γ) = x >>= fun r => Pure.pure r.2 := rfl
  rw [hbind, Logged.result_bind, Checked.bind_eq_ok_iff] at h
  obtain ⟨⟨answer, next⟩, hx, hnext⟩ := h
  cases hnext
  exact ⟨answer, hx⟩

variable [Scalar α]

namespace Simulation

variable {π : Type} {sim sim' : Simulation α π} {v : VmId}

@[simp] theorem pool_meterPower (sim : Simulation α π) : sim.meterPower.pool = sim.pool := rfl

@[simp] theorem pending_meterPower (sim : Simulation α π) :
    sim.meterPower.pending = sim.pending := rfl

@[simp] theorem time_meterPower (sim : Simulation α π) : sim.meterPower.time = sim.time := rfl

omit [Scalar α] in
@[simp] theorem pool_wait (sim : Simulation α π) (v : VmId) : (sim.wait v).pool = sim.pool := rfl

/-! ### Operations that need no policy -/

theorem addHost_cases {spec : HostSpec α} {id : HostId}
    (h : (sim.addHost spec).result = .ok (id, sim')) :
    ∃ pool, sim.pool.addHost spec = .ok (id, pool)
      ∧ sim' = { sim with pool, meter := sim.meter.update id sim.time 0 } := by
  simp only [addHost, Logged.result_bind, Logged.result_lift, Checked.bind_eq_ok_iff] at h
  obtain ⟨⟨id', pool⟩, hadd, _, -, h⟩ := h
  cases h
  exact ⟨pool, hadd, rfl⟩

theorem releaseVm_cases {answer : Option HostId}
    (h : (sim.releaseVm v).result = .ok (answer, sim')) :
    (sim.pool.release v = none ∧ sim' = { sim with pending := sim.pending.filter (· ≠ v) })
    ∨ ∃ host pool, sim.pool.release v = some (host, pool)
      ∧ sim' = { sim with pending := sim.pending.filter (· ≠ v), pool }.meterPower := by
  rw [releaseVm] at h
  cases hr : sim.pool.release v with
  | none =>
    simp only [hr] at h
    cases h
    exact .inl ⟨rfl, rfl⟩
  | some r =>
    simp only [hr] at h
    cases h
    exact .inr ⟨r.1, r.2, rfl, rfl⟩

theorem updateVmMips_cases {mips : α} {answer : Except Refusal Unit}
    (h : (sim.updateVmMips v mips).result = .ok (answer, sim')) :
    sim' = sim
    ∨ ∃ pool, sim.pool.updateVmMips v mips = .done pool ∧ sim' = { sim with pool }.meterPower := by
  simp only [updateVmMips, Logged.result_bind, Logged.result_lift, Checked.bind_eq_ok_iff] at h
  obtain ⟨resized, hresized, h⟩ := h
  cases resized with
  | ok pool =>
    rw [Outcome.settled_eq_ok_iff] at hresized
    cases h
    exact .inr ⟨pool, hresized, rfl⟩
  | error reason =>
    cases h
    exact .inl rfl

/-- Time goes on to the end of the migration, and the VM may land. -/
theorem land_cases {flight : InFlight α} (h : (sim.land flight).result = .ok sim') :
    sim' = (sim.atFinish flight sim.inFlight).meterPower
    ∨ ∃ source pool, sim.pool.finishMigration flight.vm = .done (source, pool)
      ∧ sim' = { sim.atFinish flight sim.inFlight with
        pool, completed := sim.completed + 1 }.meterPower := by
  simp only [land, complete, Logged.result_bind, Checked.bind_eq_ok_iff] at h
  obtain ⟨between, hbetween, h⟩ := h
  cases h
  split at hbetween
  · cases hbetween
    exact .inl rfl
  · simp only [Logged.result_bind, Logged.result_lift, Checked.bind_eq_ok_iff] at hbetween
    obtain ⟨landed, hlanded, hbetween⟩ := hbetween
    cases landed with
    | ok r =>
      rw [Outcome.settled_eq_ok_iff] at hlanded
      cases hbetween
      exact .inr ⟨r.1, r.2, hlanded, rfl⟩
    | error reason =>
      cases hbetween
      exact .inl rfl

/-- The migrations in flight that come up until the given time. -/
def dueUntil (sim : Simulation α π) (time : α) : List (InFlight α) :=
  sim.inFlight.takeWhile fun f => !(time + Scalar.epsilon < f.finish)

/-- The simulation when these migrations are taken out of the queue. -/
def withoutDue (sim : Simulation α π) (time : α) : Simulation α π :=
  { sim with inFlight := sim.inFlight.dropWhile fun f => !(time + Scalar.epsilon < f.finish) }

theorem landUntil_eq (sim : Simulation α π) (time : α) :
    sim.landUntil time = Logged.fold land (sim.withoutDue time) (sim.dueUntil time) := rfl

variable [AllocationPolicy α π]

/-! ### Placing VMs -/

theorem placeVm_cases {answer : Except PlacementError HostId}
    (h : (sim.placeVm v).result = .ok (answer, sim')) :
    (∃ host pool, answer = .ok host ∧ sim.pool.allocate v host = .done pool
      ∧ sim' = { sim with pool }.meterPower)
    ∨ ∃ error, answer = .error error ∧ sim' = sim := by
  cases answer with
  | ok host =>
    simp only [placeVm, Logged.result_bind, Logged.result_lift, Checked.bind_eq_ok_iff] at h
    obtain ⟨placed, hplaced, h⟩ := h
    cases placed with
    | ok r =>
      rw [Outcome.settled_eq_ok_iff] at hplaced
      cases h
      exact .inl ⟨r.1, r.2, rfl, allocate_of_place hplaced, rfl⟩
    | error error => cases h
  | error error => exact .inr ⟨error, rfl, (placeVm_eq_error h).2⟩

theorem submitVm_cases {spec : VmSpec α} (h : (sim.submitVm spec).result = .ok (v, sim')) :
    ∃ pool, sim.pool.addVm spec = .ok (v, pool)
      ∧ (sim' = { sim with pool }.wait v
        ∨ ∃ host pool', pool.allocate v host = .done pool'
          ∧ sim' = { sim with pool := pool' }.meterPower) := by
  simp only [submitVm, Logged.result_bind, Logged.result_lift, Checked.bind_eq_ok_iff] at h
  obtain ⟨⟨w, pool⟩, hadd, ⟨answer, next⟩, hplace, h⟩ := h
  rcases placeVm_cases hplace with ⟨host, pool', rfl, hallocate, rfl⟩ | ⟨error, rfl, rfl⟩
  · cases h
    exact ⟨pool, hadd, .inr ⟨host, pool', hallocate, rfl⟩⟩
  · cases h
    exact ⟨pool, hadd, .inl rfl⟩

theorem retry_cases (h : (sim.retry v).result = .ok sim') :
    (sim.pool.vms.get? v = none ∧ sim' = sim)
    ∨ ((∃ vm, sim.pool.vms.get? v = some vm) ∧ sim' = sim.wait v)
    ∨ ∃ host pool, sim.pool.allocate v host = .done pool ∧ sim' = { sim with pool }.meterPower := by
  rw [retry] at h
  cases hv : sim.pool.vms.get? v with
  | none =>
    simp only [Table.contains, hv] at h
    cases h
    exact .inl ⟨rfl, rfl⟩
  | some vm =>
    simp only [Table.contains, hv, Option.isSome_some, Bool.not_true, Bool.false_eq_true, if_false,
      Logged.result_bind, Checked.bind_eq_ok_iff] at h
    obtain ⟨⟨answer, next⟩, hplace, h⟩ := h
    rcases placeVm_cases hplace with ⟨host, pool, rfl, hallocate, rfl⟩ | ⟨error, rfl, rfl⟩
    · cases h
      exact .inr (.inr ⟨host, pool, hallocate, rfl⟩)
    · cases h
      exact .inr (.inl ⟨⟨vm, rfl⟩, rfl⟩)

/-! ### Plans and steps -/

variable [KeepsLedger α π]

/-- All migrations of the plan are started, or the first ones are started and undone. -/
theorem applyPlan_effect {plan : List (Migration α)} {answer : Except PlanRejection Nat}
    (h : (sim.applyPlan plan).result = .ok (answer, sim')) :
    sim' = sim
    ∨ (∃ policy pool flights started, sim.pool.startPlan plan = .ok (pool, none)
      ∧ sim' = { sim with policy, pool, inFlight := flights, started }.meterPower)
    ∨ ∃ policy between pool rejection, sim.pool.startPlan plan = .ok (between, some rejection)
      ∧ Ledger.tryRestore ⟨some (.capture sim.pool sim.pool.vmIds)⟩ between
        (between.vmsAround (planHosts plan)) (planHosts plan).toList = .ok ⟨pool, none⟩
      ∧ sim' = { sim with policy, pool } := by
  rcases applyPlan_parts h with ⟨-, -, rfl⟩ | ⟨pool, last, hstart, hlast, -, rfl⟩ |
    ⟨between, rejection, pool, hstart, hrestore, -, rfl⟩
  · exact .inl rfl
  · refine .inr (.inl ⟨last.policy, pool, last.inFlight, last.started, hstart, ?_⟩)
    rw [fold_launch_eq hlast]
    rfl
  · exact .inr (.inr ⟨_, between, pool, rejection, hstart,
      tryRestore_of_restore_saved hrestore, rfl⟩)

omit [KeepsLedger α π] in
/-- If passes are run, the plan of the policy is carried out. -/
theorem optimize_cases {started : Nat} (h : sim.optimize.result = .ok (started, sim')) :
    ∃ last monitoring, sim' = { last with monitoring, lastMonitoring := last.time }
      ∧ (last = sim ∨ sim.config.migrates = true ∧ ∃ plan policy answer,
        (AllocationPolicy.optimize sim.policy sim.pool sim.monitoring sim.id).result
          = .ok (plan, policy)
        ∧ (applyPlan { sim with policy } plan).result = .ok (answer, last)) := by
  rw [optimize] at h
  split at h
  · rename_i hmigrates
    simp only [migrate, Logged.result_bind, Checked.bind_eq_ok_iff] at h
    obtain ⟨⟨n, last⟩, hmigrate, monitoring, -, h⟩ := h
    obtain ⟨⟨plan, policy⟩, hplan, _, -, ⟨answer, next⟩, happly, hlast⟩ := hmigrate
    cases hlast
    cases h
    exact ⟨next, monitoring, rfl, .inr ⟨hmigrates, plan, policy, answer, hplan, happly⟩⟩
  · simp only [Logged.result_bind, Checked.bind_eq_ok_iff] at h
    obtain ⟨⟨n, last⟩, hlast, monitoring, -, h⟩ := h
    cases hlast
    cases h
    exact ⟨sim, monitoring, rfl, .inl rfl⟩

omit [KeepsLedger α π] in
/-- Migrations land, waiting VMs are tried, and a pass is run if the monitoring interval has
passed. -/
theorem step_pass (h : sim.step.result = .ok sim') :
    ∃ landed retried last,
      (sim.landUntil (sim.time + sim.config.stepInterval)).result = .ok landed
      ∧ (retryPending { landed with time := sim.time + sim.config.stepInterval }).result
        = .ok retried
      ∧ (retried.monitoringDue = false ∧ last = retried
        ∨ retried.monitoringDue = true ∧ ∃ started, retried.optimize.result = .ok (started, last))
      ∧ sim' = last.meterPower := by
  simp only [step, Logged.result_bind, Checked.bind_eq_ok_iff] at h
  obtain ⟨landed, hlanded, _, -, retried, hretried, h⟩ := h
  split at h
  · rename_i hdue
    simp only [Logged.result_bind, Checked.bind_eq_ok_iff] at h
    obtain ⟨last, hoptimize, h⟩ := h
    cases h
    exact ⟨landed, retried, last, hlanded, hretried,
      .inr ⟨hdue, Logged.exists_of_snd hoptimize⟩, rfl⟩
  · rename_i hdue
    cases h
    exact ⟨landed, retried, retried, hlanded, hretried,
      .inl ⟨Bool.eq_false_iff.mpr hdue, rfl⟩, rfl⟩

omit [KeepsLedger α π] in
/-- Migrations land, waiting VMs are tried, and a pass may be run. -/
theorem step_cases (h : sim.step.result = .ok sim') :
    ∃ landed retried last,
      (sim.landUntil (sim.time + sim.config.stepInterval)).result = .ok landed
      ∧ (retryPending { landed with time := sim.time + sim.config.stepInterval }).result
        = .ok retried
      ∧ (last = retried ∨ ∃ started, retried.optimize.result = .ok (started, last))
      ∧ sim' = last.meterPower := by
  obtain ⟨landed, retried, last, hlanded, hretried, hlast, hsim⟩ := step_pass h
  exact ⟨landed, retried, last, hlanded, hretried, hlast.imp And.right And.right, hsim⟩

end Simulation

end Datacenter
