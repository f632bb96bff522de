import Datacenter.Simulation.Basic

/-!
# Carrying out plans

The migrations of a plan are started together or not at all. If one of them is rejected, the hosts
of the whole plan are evicted, and what they had is rebuilt from the placements saved before.
-/

namespace Datacenter

/-- Starts migrations in turn, up to the first one that is rejected. -/
def Pool.startPlan {α : Type} [Scalar α] (pool : Pool α) :
    List (Migration α) → Checked (Pool α × Option PlanRejection)
  | [] => .ok (pool, none)
  | m :: rest => do
    match ← (pool.startMigration m.vm m.target).settled with
    | .ok pool => pool.startPlan rest
    | .error reason => return (pool, some ⟨m.vm, m.target, reason⟩)

/-- Sources and targets of a plan. -/
def planHosts {α : Type} (plan : List (Migration α)) : Std.TreeSet HostId :=
  .ofList (plan.flatMap fun m => [m.source, m.target])

/-- VMs that run on one of the hosts or move to it. -/
def Pool.vmsAround {α : Type} (pool : Pool α) (hosts : Std.TreeSet HostId) : List VmId :=
  (pool.vms.values.filter fun vm =>
    vm.host.any hosts.contains || vm.migrationTarget.any hosts.contains).map (·.id)

namespace Simulation

variable {α π : Type} [Scalar α]

/-- Puts a migration that has been started on its way. -/
def launch (sim : Simulation α π) (m : Migration α) : Logged α (Simulation α π) := do
  let vm ← sim.pool.vm m.vm
  let duration := vm.migrationDuration sim.config.migrationOverhead
  let number := sim.started + 1
  let flight : InFlight α := ⟨sim.time + duration, number, m.vm, m.target⟩
  sim.note (.migrationStarted { m with time := some sim.time } duration)
  return { sim with inFlight := flight.enqueue sim.inFlight, started := number }

variable [AllocationPolicy α π]

/-- Starts the migrations of a plan. Gives their number. -/
def applyPlan (sim : Simulation α π) (plan : List (Migration α)) :
    Logged α (Except PlanRejection Nat × Simulation α π) := do
  if plan.isEmpty then return (.ok 0, sim)
  else
    let sim := { sim with policy := AllocationPolicy.save sim.policy sim.pool sim.pool.vmIds }
    let (pool, rejection?) ← sim.pool.startPlan plan
    match rejection? with
    | some rejection =>
      sim.note (.planRejected rejection)
      let hosts := planHosts plan
      let pool ← AllocationPolicy.restore sim.policy pool (pool.vmsAround hosts) hosts.toList
      return (.error rejection, { sim with pool })
    | none =>
      let sim ← Logged.fold launch { sim with pool } plan
      return (.ok plan.length, sim.meterPower)

end Simulation

end Datacenter
