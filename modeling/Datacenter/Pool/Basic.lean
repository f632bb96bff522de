import Datacenter.Host
import Datacenter.Sort.Insertion

/-!
# The pool of hosts and virtual machines

The pool holds every host and every VM, and changes both together: what a VM's record says about its
placement and what hosts hold agree after each operation. Hosts and VMs are numbered in order of
their creation.
-/

namespace Datacenter

structure Pool (α : Type) where
  hosts : Table HostId (Host α)
  vms : Table VmId (Vm α)
  nextHost : HostId
  nextVm : VmId

namespace Pool

variable {α : Type}

def empty : Pool α := ⟨∅, ∅, 0, 0⟩

instance : Inhabited (Pool α) := ⟨empty⟩

/-! ### Access -/

/-- The host; an unknown id is a fault. -/
def host (pool : Pool α) (id : HostId) : Checked (Host α) :=
  match pool.hosts.get? id with
  | some host => .ok host
  | none => .error .unknownId

/-- The VM; an unknown id is a fault. -/
def vm (pool : Pool α) (id : VmId) : Checked (Vm α) :=
  match pool.vms.get? id with
  | some vm => .ok vm
  | none => .error .unknownId

def hostIds (pool : Pool α) : List HostId := pool.hosts.keys

def vmIds (pool : Pool α) : List VmId := pool.vms.keys

def withHost (pool : Pool α) (id : HostId) (host : Host α) : Pool α :=
  { pool with hosts := pool.hosts.insert id host }

def withVm (pool : Pool α) (id : VmId) (vm : Vm α) : Pool α :=
  { pool with vms := pool.vms.insert id vm }

/-- Changes the host if there is one with the id. -/
def updateHost (pool : Pool α) (id : HostId) (f : Host α → Host α) : Pool α :=
  match pool.hosts.get? id with
  | some host => pool.withHost id (f host)
  | none => pool

/-! ### Creation and removal -/

/-- The id after the given one. Ids are words of 32 bits. -/
def nextId (id : Nat) : Checked Nat :=
  if id + 1 < UInt32.size then .ok (id + 1) else .error .overflow

variable [Scalar α]

def addHost (pool : Pool α) (spec : HostSpec α) : Checked (HostId × Pool α) := do
  let id := pool.nextHost
  let next ← nextId id
  return (id, { pool with hosts := pool.hosts.insert id (Host.create id spec), nextHost := next })

omit [Scalar α] in
def addVm (pool : Pool α) (spec : VmSpec α) : Checked (VmId × Pool α) := do
  let id := pool.nextVm
  let next ← nextId id
  return (id, { pool with vms := pool.vms.insert id (Vm.create id spec), nextVm := next })

omit [Scalar α] in
/-- Removes a VM that is not placed. -/
def removeVm (pool : Pool α) (id : VmId) : Except Refusal (Vm α × Pool α) :=
  match pool.vms.get? id with
  | none => .error .vmNotFound
  | some vm =>
    if vm.host.isSome then .error .alreadyAllocated
    else .ok (vm, { pool with vms := pool.vms.erase id })

/-! ### Placement -/

/-- Whether the VM fits into what is left of the host. -/
def canAllocate (pool : Pool α) (vmId : VmId) (hostId : HostId) : Outcome Refusal Unit :=
  match pool.vms.get? vmId with
  | none => .refused .vmNotFound
  | some vm =>
    match pool.hosts.get? hostId with
    | none => .refused .hostNotFound
    | some host => do Host.roomOrRefuse (← host.shortage vm.demand)

/-- Places a VM that runs nowhere. -/
def allocate (pool : Pool α) (vmId : VmId) (hostId : HostId) : Outcome Refusal (Pool α) :=
  match pool.vms.get? vmId with
  | none => .refused .vmNotFound
  | some vm =>
    if vm.host.isSome then .refused .alreadyAllocated
    else match pool.hosts.get? hostId with
      | none => .refused .hostNotFound
      | some host => do
        let host ← host.allocate vmId vm.demand
        return (pool.withHost hostId host).withVm vmId
          { vm with host := some hostId, beingInstantiated := false }

/-- Takes a VM from its host, and from the host that it migrates to. Gives the former host. -/
def release (pool : Pool α) (vmId : VmId) : Option (HostId × Pool α) := do
  let vm ← pool.vms.get? vmId
  let hostId ← vm.host
  let pool ← match vm.migrationTarget with
    | none => some pool
    | some targetId => do
      let target ← pool.hosts.get? targetId
      some (pool.withHost targetId (target.cancel vmId))
  let host ← pool.hosts.get? hostId
  return (hostId, (pool.withHost hostId (host.release vmId)).withVm vmId vm.unplaced)

/-! ### Migration -/

/-- Reserves the demand of a placed VM on another host. -/
def startMigration (pool : Pool α) (vmId : VmId) (targetId : HostId) : Outcome Refusal (Pool α) :=
  match pool.vms.get? vmId with
  | none => .refused .vmNotFound
  | some vm =>
    match vm.host with
    | none => .refused .notAllocated
    | some sourceId =>
      if vm.isMigrating then .refused .vmMigrating
      else if sourceId = targetId then .refused .sameHost
      else match pool.hosts.get? targetId with
        | none => .refused .hostNotFound
        | some target => do
          let target ← target.reserve vmId vm.demand
          return (pool.withHost targetId target).withVm vmId (vm.movingTo targetId)

/-- Lands a migrating VM on its target. Gives the host that it left. -/
def finishMigration (pool : Pool α) (vmId : VmId) : Outcome Refusal (HostId × Pool α) :=
  match pool.vms.get? vmId with
  | none => .refused .vmNotFound
  | some vm =>
    match vm.host, vm.migrationTarget with
    | none, _ => .refused .notAllocated
    | some _, none => .refused .notAllocated
    | some sourceId, some targetId =>
      match pool.hosts.get? targetId with
      | none => .refused .hostNotFound
      | some target => do
        let target ← target.land vmId
        let pool := (pool.withHost targetId target).updateHost sourceId (·.release vmId)
        return (sourceId, pool.withVm vmId (vm.runningOn targetId))

/-- Ends a migration with the VM where it was. -/
def cancelMigration (pool : Pool α) (vmId : VmId) : Except Refusal (Pool α) :=
  match pool.vms.get? vmId with
  | none => .error .vmNotFound
  | some vm =>
    match vm.migrationTarget with
    | none => .error .notAllocated
    | some targetId => .ok ((pool.updateHost targetId (·.cancel vmId)).withVm vmId vm.staying)

/-! ### Resizing and eviction -/

/-- Changes the compute rate of a VM. If it is placed, its host has to have room for the change. -/
def updateVmMips (pool : Pool α) (vmId : VmId) (mips : α) : Outcome Refusal (Pool α) :=
  match pool.vms.get? vmId with
  | none => .refused .vmNotFound
  | some vm =>
    if vm.isMigrating then .refused .vmMigrating
    else
      let resized := { vm with mips }
      match vm.host with
      | none => .done (pool.withVm vmId resized)
      | some hostId =>
        match pool.hosts.get? hostId with
        | none => .refused .hostNotFound
        | some host => do
          let host ← host.resize vmId resized.demand
          return (pool.withHost hostId host).withVm vmId resized

/-- Takes all residents off the host and drops its reservations. Gives residents, then incoming. -/
def evictHost (pool : Pool α) (hostId : HostId) : List VmId × Pool α :=
  match pool.hosts.get? hostId with
  | none => ([], pool)
  | some host =>
    let resident := host.resident.keys
    let incoming := host.incoming.keys
    let pool := incoming.foldl (fun pool id => (pool.cancelMigration id).toOption.getD pool) pool
    let pool := resident.foldl (fun pool id => ((pool.release id).map Prod.snd).getD pool) pool
    (resident ++ incoming, pool)

end Pool

end Datacenter
