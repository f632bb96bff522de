import Datacenter.Simulation.Plan

/-!
# Steps of a simulation

A step lands the migrations that finish within it, each at its own time, then tries again to place
waiting VMs, and from time to time runs an optimization pass.
-/

namespace Datacenter.Simulation

variable {α π : Type} [Scalar α]

/-! ### Landing -/

/-- Ends a migration, unless it was cancelled or replaced by one to another host. -/
def complete (sim : Simulation α π) (flight : InFlight α) : Logged α (Simulation α π) := do
  let target? := (sim.pool.vms.get? flight.vm).bind (·.migrationTarget)
  if target? ≠ some flight.target then
    sim.note (.migrationCancelled flight.vm)
    return sim
  else
    match ← (sim.pool.finishMigration flight.vm).settled with
    | .ok (source, pool) =>
      sim.note (.migrationCompleted flight.vm source flight.target)
      return { sim with pool, completed := sim.completed + 1 }
    | .error reason =>
      sim.note (.migrationFailed flight.vm reason)
      return sim

/-- Goes on to the time when a migration finishes, and ends it. -/
def land (sim : Simulation α π) (flight : InFlight α) : Logged α (Simulation α π) := do
  let sim ← { sim with time := Scalar.larger flight.finish sim.time }.complete flight
  return sim.meterPower

/-- Lands all migrations that finish up to a time, with a tolerance. -/
def landUntil (sim : Simulation α π) (time : α) : Logged α (Simulation α π) :=
  let isDue (flight : InFlight α) : Bool := !(time + Scalar.epsilon < flight.finish)
  Logged.fold land { sim with inFlight := sim.inFlight.dropWhile isDue }
    (sim.inFlight.takeWhile isDue)

variable [AllocationPolicy α π]

/-! ### Waiting VMs -/

/-- Tries to place a VM. It waits on if that fails. -/
def retry (sim : Simulation α π) (vm : VmId) : Logged α (Simulation α π) := do
  if !sim.pool.vms.contains vm then return sim
  else
    let (placed, sim) ← sim.placeVm vm
    match placed with
    | .ok _ => return sim
    | .error _ => return sim.wait vm

def retryPending (sim : Simulation α π) : Logged α (Simulation α π) :=
  Logged.fold retry { sim with pending := .empty } sim.pending.toList

/-! ### Optimization -/

/-- Has the policy plan migrations and carries them out. Gives the number of started ones. -/
def migrate (sim : Simulation α π) : Logged α (Nat × Simulation α π) := do
  let (plan, policy) ← AllocationPolicy.optimize sim.policy sim.pool sim.monitoring sim.id
  sim.note (.planMade plan.length)
  let (started, sim) ← { sim with policy }.applyPlan plan
  return (started.toOption.getD 0, sim)

/-- Runs an optimization pass, if passes are run, and then samples the utilization. Gives the number
of started migrations. -/
def optimize (sim : Simulation α π) : Logged α (Nat × Simulation α π) := do
  let (started, sim) ← if sim.config.migrates then sim.migrate else pure (0, sim)
  let monitoring ← sim.monitoring.collect sim.pool
  return (started, { sim with monitoring, lastMonitoring := sim.time })

/-! ### Steps -/

/-- The monitoring interval has passed since the latest samples, up to a tolerance. -/
def monitoringDue (sim : Simulation α π) : Bool :=
  sim.config.monitoringInterval ≤ sim.time - sim.lastMonitoring + Scalar.epsilon

/-- Goes on by one interval. -/
def step (sim : Simulation α π) : Logged α (Simulation α π) := do
  let time := sim.time + sim.config.stepInterval
  let sim ← sim.landUntil time
  let sim := { sim with time }
  sim.note .stepMade
  let sim ← sim.retryPending
  let sim ← if sim.monitoringDue then Prod.snd <$> sim.optimize else pure sim
  return sim.meterPower

def steps (sim : Simulation α π) (count : Nat) : Logged α (Simulation α π) :=
  Logged.iterate (fun _ => true) step sim count

/-- An upper bound of the number of steps that a duration takes, whatever rounding does to the
time. -/
def stepBound (sim : Simulation α π) (duration : α) : Nat :=
  2 * Scalar.natCeil (duration / sim.config.stepInterval) + 2

/-- Steps until a duration has passed, up to a tolerance. -/
def stepFor (sim : Simulation α π) (duration : α) : Logged α (Simulation α π) :=
  let finish := sim.time + duration
  Logged.iterate (fun sim => sim.time + Scalar.epsilon < finish) step sim (sim.stepBound duration)

end Datacenter.Simulation
