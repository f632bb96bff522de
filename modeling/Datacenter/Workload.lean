import Datacenter.Simulation.Step

/-!
# A workload in three phases

The initial placement settles; then the VMs of one tenant double their compute rate; then every
other VM of another tenant leaves, so that the rest can be consolidated. Each phase goes on for the
same time.
-/

namespace Datacenter

/-- The first of each two elements. -/
def everyOther {β : Type} : List β → List β
  | [] => []
  | [x] => [x]
  | x :: _ :: rest => x :: everyOther rest

/-- VMs of a tenant, in order of their creation. -/
def Pool.vmsOf {α : Type} (pool : Pool α) (tenant : String) : List (Vm α) :=
  pool.vms.values.filter (·.tenant == tenant)

namespace Simulation

variable {α π : Type} [Scalar α]

/-- The tenant whose VMs grow. -/
def growingTenant : String := "batch"

/-- The tenant whose VMs leave. -/
def leavingTenant : String := "web"

/-- Doubles the rate of a VM, if its host has room for that. -/
def growVm (sim : Simulation α π) (vm : Vm α) : Logged α (Simulation α π) := do
  let (resized, sim) ← sim.updateVmMips vm.id (vm.mips * Scalar.ofNat 2)
  match resized with
  | .ok () => return sim
  | .error reason =>
    sim.note (.vmNotResized vm.id reason)
    return sim

/-- Doubles the rates of the VMs of the growing tenant. -/
def grow (sim : Simulation α π) : Logged α (Simulation α π) :=
  Logged.fold growVm sim (sim.pool.vmsOf growingTenant)

/-- Releases every other VM of the leaving tenant. -/
def thinOut (sim : Simulation α π) : Logged α (Simulation α π) :=
  Logged.fold (fun sim vm => Prod.snd <$> sim.releaseVm vm.id) sim
    (everyOther (sim.pool.vmsOf leavingTenant))

/-- Runs the workload, with phases of the given number of seconds. -/
def runWorkload [AllocationPolicy α π] (sim : Simulation α π) (duration : α) :
    Logged α (Simulation α π) := do
  let sim ← sim.stepFor duration
  let sim ← sim.grow
  let sim ← sim.stepFor duration
  let sim ← sim.thinOut
  sim.stepFor duration

end Simulation

end Datacenter
