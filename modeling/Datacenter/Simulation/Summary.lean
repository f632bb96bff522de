import Datacenter.Simulation.Basic

/-!
# Results of a simulation
-/

namespace Datacenter

structure Summary (α : Type) where
  datacenter : String
  simulationId : Nat
  time : α
  hosts : Nat
  activeHosts : Nat
  vms : Nat
  placedVms : Nat
  pendingVms : Nat
  migrationsStarted : Nat
  migrationsCompleted : Nat
  migrationsInFlight : Nat
  /-- Current consumption of all hosts in W. -/
  power : α
  /-- Energy of all hosts in J. -/
  energy : α

def Simulation.summary {α π : Type} [Scalar α] (sim : Simulation α π) : Summary α where
  datacenter := sim.config.name
  simulationId := sim.id
  time := sim.time
  hosts := sim.pool.hosts.size
  activeHosts := sim.pool.activeHosts.length
  vms := sim.pool.vms.size
  placedVms := (sim.pool.vms.values.filter (·.host.isSome)).length
  pendingVms := sim.pending.size
  migrationsStarted := sim.started
  migrationsCompleted := sim.completed
  migrationsInFlight := sim.inFlight.length
  power := sim.pool.totalPower
  energy := sim.meter.total

end Datacenter
