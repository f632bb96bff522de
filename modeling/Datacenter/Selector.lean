import Datacenter.Pool.Load

/-!
# Power-aware choice of a host

A VM goes to the host whose consumption grows the least. Hosts without room for it are left out, and
so are those whose utilization would come to lie above a ceiling: the upper threshold, or the full
capacity for a VM that was never placed. Of equally good hosts the first one is taken.
-/

namespace Datacenter

structure Selector (α : Type) where
  upperThreshold : α

namespace Selector

variable {α : Type} [Scalar α]

/-- The utilization up to which a host takes the VM. -/
def ceiling (s : Selector α) (pool : Pool α) (vmId : VmId) : Checked α := do
  let vm ← pool.vm vmId
  return if vm.beingInstantiated then 1 else s.upperThreshold

/-- The largest utilization of CPU, memory and bandwidth once the host has the demand as well as
what is allocated. -/
def utilizationWith (host : Host α) (allocated demand : Resources α) : Checked α := do
  let cpu := (allocated.mips + demand.mips) / host.totalMips
  let ram ← addWords allocated.ram demand.ram
  let ram := Scalar.ofNat ram.toNat / Scalar.ofNat host.ram.toNat
  let bandwidth ←
    if 0 < host.bandwidth then do
      let bandwidth ← addWords allocated.bandwidth demand.bandwidth
      pure (Scalar.ofNat bandwidth.toNat / Scalar.ofNat host.bandwidth.toNat)
    else pure 0
  return Scalar.larger (Scalar.larger cpu ram) bandwidth

/-- Growth of the consumption in W if the host takes the demand besides what is allocated. An idle
host consumes nothing before that. -/
def growthWith (host : Host α) (allocated demand : Resources α) : α :=
  let before :=
    if host.isIdle then 0 else host.powerModel.draw (allocated.mips / host.totalMips)
  host.powerModel.draw ((allocated.mips + demand.mips) / host.totalMips) - before

/-- The largest utilization of the host once it has the VM as well. -/
def utilizationAfter (pool : Pool α) (vmId : VmId) (hostId : HostId) : Checked α := do
  let host ← pool.host hostId
  let vm ← pool.vm vmId
  utilizationWith host (← host.allocated) vm.demand

/-- Growth of the consumption in W if the host takes the VM. -/
def powerIncrease (pool : Pool α) (vmId : VmId) (hostId : HostId) : Checked α := do
  let host ← pool.host hostId
  let vm ← pool.vm vmId
  return growthWith host (← host.allocated) vm.demand

/-- Growth of the consumption on a host that may take the demand. A host may not if it has no room,
or if it would exceed the ceiling. -/
def offer (ceiling : α) (host : Host α) (demand : Resources α) : Checked (Option α) := do
  let allocated ← host.allocated
  if ((host.capacity.sub allocated).shortage demand).isSome then return none
  else if ceiling + Scalar.epsilon < (← utilizationWith host allocated demand) then return none
  else return some (growthWith host allocated demand)

/-- Goes through the candidates with the best host so far and its growth. The host that has the VM
already is none. -/
def scan (ceiling : α) (vm : Vm α) (demand : Resources α) :
    Option HostId → α → List (Host α) → Checked (Option HostId)
  | best, _, [] => .ok best
  | best, least, host :: rest => do
    if vm.host = some host.id then scan ceiling vm demand best least rest
    else
      match ← offer ceiling host demand with
      | none => scan ceiling vm demand best least rest
      | some growth =>
        if growth < least then scan ceiling vm demand (some host.id) growth rest
        else scan ceiling vm demand best least rest

/-- The first candidate with the least growth of consumption. An unknown VM finds no host. -/
def selectAmong (s : Selector α) (pool : Pool α) (vmId : VmId) (candidates : List (Host α)) :
    Checked (Option HostId) :=
  match pool.vms.get? vmId with
  | none => .ok none
  | some vm => do
    let ceiling ← s.ceiling pool vmId
    scan ceiling vm vm.demand none Scalar.largest candidates

/-- The first candidate with the least growth of consumption. Unknown hosts are passed over. -/
def selectHost (s : Selector α) (pool : Pool α) (vmId : VmId) (candidates : List HostId) :
    Checked (Option HostId) :=
  s.selectAmong pool vmId (candidates.filterMap pool.hosts.get?)

end Selector

end Datacenter
