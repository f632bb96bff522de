import Datacenter.Pool.Basic

/-!
# Loads of hosts

The planning load of a host is what it will carry once all current migrations have landed: residents
that stay, and incoming VMs.
-/

namespace Datacenter.Pool

variable {α : Type} [Scalar α]

/-- Takes away the demands of residents that migrate out. -/
def withoutOutgoing (pool : Pool α) (load : Resources α) :
    List (VmId × Resources α) → Checked (Resources α)
  | [] => .ok load
  | (vmId, demand) :: rest => do
    let vm ← pool.vm vmId
    pool.withoutOutgoing (if vm.isMigrating then load.sub demand else load) rest

def planningLoad (pool : Pool α) (hostId : HostId) : Checked (Resources α) := do
  let host ← pool.host hostId
  let load ← host.allocated
  pool.withoutOutgoing load host.resident.entries

/-- Share of the compute capacity under the planning load. -/
def cpuUtilization (pool : Pool α) (hostId : HostId) : Checked α := do
  let load ← pool.planningLoad hostId
  let host ← pool.host hostId
  return load.mips / host.totalMips

/-- Share of the memory under the planning load. -/
def ramUtilization (pool : Pool α) (hostId : HostId) : Checked α := do
  let load ← pool.planningLoad hostId
  let host ← pool.host hostId
  return Scalar.ofNat load.ram.toNat / Scalar.ofNat host.ram.toNat

omit [Scalar α] in
/-- Residents of the host that do not migrate, in order of their creation. -/
def migratableVms (pool : Pool α) (hostId : HostId) : Checked (List VmId) :=
  match pool.hosts.get? hostId with
  | none => .ok []
  | some host => do
    let staying ← host.resident.keys.filterM fun vmId => do
      let vm ← pool.vm vmId
      return !vm.isMigrating
    return insertionSort (fun a b => a < b) staying

omit [Scalar α] in
/-- The host runs or expects a VM. -/
def isActive (pool : Pool α) (hostId : HostId) : Checked Bool := do
  let host ← pool.host hostId
  return !host.isIdle

omit [Scalar α] in
def activeHosts (pool : Pool α) : List HostId :=
  (pool.hosts.values.filter (!·.isIdle)).map (·.id)

/-- Consumption of all hosts in W. -/
def totalPower (pool : Pool α) : α := Scalar.sum (pool.hosts.values.map Host.power)

end Datacenter.Pool
