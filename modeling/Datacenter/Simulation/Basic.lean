import Datacenter.Config.Basic
import Datacenter.Energy
import Datacenter.Policy.Basic
import Datacenter.Queue

/-!
# Simulations

A simulation is a pool over simulated time: a policy places VMs, VMs that find no host wait, started
migrations land after a while, and energy is metered. Each operation records what happens, with the
time and the name of the datacenter.
-/

namespace Datacenter

/-- A started migration that has not landed. -/
structure InFlight (α : Type) where
  finish : α
  /-- Number of the migration among all started ones, from one on. -/
  number : Nat
  vm : VmId
  target : HostId

namespace InFlight

variable {α : Type} [Scalar α]

/-- The migration lands earlier, or at the same time and was started earlier. -/
def landsBefore (a b : InFlight α) : Bool :=
  Scalar.comesBefore a.finish b.finish
    || (!Scalar.comesBefore b.finish a.finish && a.number < b.number)

/-- Adds a migration in the order of landing. -/
def enqueue (m : InFlight α) : List (InFlight α) → List (InFlight α)
  | [] => [m]
  | x :: xs => if m.landsBefore x then m :: x :: xs else x :: m.enqueue xs

end InFlight

/-- A run of a datacenter under a policy of type `π`. -/
structure Simulation (α π : Type) where
  config : Config α
  /-- Number that the report gives with each migration. -/
  id : Nat
  pool : Pool α
  policy : π
  monitoring : Monitoring α
  meter : EnergyMeter α
  /-- VMs that wait for a host, in order of their submission. -/
  pending : Queue VmId
  /-- Migrations in the order in which they land. -/
  inFlight : List (InFlight α)
  time : α
  /-- Time of the latest samples of the utilization. -/
  lastMonitoring : α
  started : Nat
  completed : Nat

namespace Simulation

variable {α π : Type}

/-- Records an event at the current time. -/
def note (sim : Simulation α π) (event : Event α) : Logged α Unit :=
  Logged.noteAt ⟨sim.time, sim.config.name⟩ event

/-- Lets a VM wait for a host. -/
def wait (sim : Simulation α π) (vm : VmId) : Simulation α π :=
  { sim with pending := sim.pending.push vm }

variable [Scalar α]

/-- A simulation without hosts and VMs. -/
def create (config : Config α) (policy : π) (id : Nat) : Simulation α π where
  config := config
  id := id
  pool := .empty
  policy := policy
  monitoring := .ofLength config.historyLength
  meter := .empty
  pending := .empty
  inFlight := []
  time := 0
  lastMonitoring := 0
  started := 0
  completed := 0

/-- Tells the meter the current power of all hosts, which it knows since they were added. -/
def meterPower (sim : Simulation α π) : Simulation α π :=
  let power? (host : HostId) : Option α := (sim.pool.hosts.get? host).map Host.power
  { sim with meter := sim.meter.updateAll sim.time power? }

/-! ### Hosts and VMs -/

/-- Adds a host, which is switched off. -/
def addHost (sim : Simulation α π) (spec : HostSpec α) :
    Logged α (HostId × Simulation α π) := do
  let (id, pool) ← sim.pool.addHost spec
  let sim := { sim with pool, meter := sim.meter.update id sim.time 0 }
  sim.note (.hostAdded id spec.name)
  return (id, sim)

variable [AllocationPolicy α π]

/-- Places a VM where the policy says. -/
def placeVm (sim : Simulation α π) (vm : VmId) :
    Logged α (Except PlacementError HostId × Simulation α π) := do
  match ← (AllocationPolicy.place sim.policy sim.pool vm).settled with
  | .ok (host, pool) =>
    sim.note (.vmPlaced vm host)
    return (.ok host, { sim with pool }.meterPower)
  | .error error =>
    sim.note (.vmNotPlaced vm error)
    return (.error error, sim)

/-- Creates a VM and places it. It waits if that fails. -/
def submitVm (sim : Simulation α π) (spec : VmSpec α) : Logged α (VmId × Simulation α π) := do
  let (vm, pool) ← sim.pool.addVm spec
  let (placed, sim) ← { sim with pool }.placeVm vm
  match placed with
  | .ok _ => return (vm, sim)
  | .error _ => return (vm, sim.wait vm)

omit [AllocationPolicy α π] in
/-- Takes a VM from its host, or out of the queue. Its migration ends. Gives the former host. -/
def releaseVm (sim : Simulation α π) (vm : VmId) :
    Logged α (Option HostId × Simulation α π) := do
  let sim := { sim with pending := sim.pending.filter (· ≠ vm) }
  match sim.pool.release vm with
  | none => return (none, sim)
  | some (host, pool) =>
    sim.note (.vmReleased vm host)
    return (some host, { sim with pool }.meterPower)

omit [AllocationPolicy α π] in
/-- Changes the compute rate of a VM. -/
def updateVmMips (sim : Simulation α π) (vm : VmId) (mips : α) :
    Logged α (Except Refusal Unit × Simulation α π) := do
  match ← (sim.pool.updateVmMips vm mips).settled with
  | .ok pool =>
    sim.note (.vmResized vm mips)
    return (.ok (), { sim with pool }.meterPower)
  | .error reason => return (.error reason, sim)

end Simulation

end Datacenter
