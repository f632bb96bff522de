import Datacenter.Pool.Basic

/-!
# Consistency of a pool

The check looks at a pool from both sides: hosts stay within their capacities and hold only VMs
whose records agree, and each VM is where its record says.
-/

namespace Datacenter

/-- What is wrong with a pool. -/
inductive Inconsistency where
  | capacityExceeded (host : HostId)
  | strayResident (vm : VmId) (host : HostId)
  | strayReservation (host : HostId) (vm : VmId)
  | residentOnHosts (vm : VmId) (owners : Nat)
  | missingReservation (vm : VmId) (target : HostId)
  deriving DecidableEq

def Inconsistency.message : Inconsistency → String
  | .capacityExceeded host => "host " ++ toString host ++ " allocations exceed its capacity"
  | .strayResident vm host =>
    "vm " ++ toString vm ++ " is resident on host " ++ toString host ++ " but not assigned to it"
  | .strayReservation host vm =>
    "host " ++ toString host ++ " expects vm " ++ toString vm ++ " which is not migrating to it"
  | .residentOnHosts vm owners =>
    "vm " ++ toString vm ++ " is resident on " ++ toString owners ++ " hosts"
  | .missingReservation vm target =>
    "vm " ++ toString vm ++ " has no reservation on its migration target " ++ toString target

namespace Pool

variable {α : Type}

/-- Refused with the reason unless the condition holds. -/
def demandThat (condition : Bool) (reason : Inconsistency) : Outcome Inconsistency Unit :=
  if condition then .done () else .refused reason

def checkResidents (pool : Pool α) (host : Host α) : List VmId → Outcome Inconsistency Unit
  | [] => .done ()
  | vmId :: rest => do
    demandThat ((pool.vms.get? vmId).bind (·.host) == some host.id) (.strayResident vmId host.id)
    pool.checkResidents host rest

def checkIncoming (pool : Pool α) (host : Host α) : List VmId → Outcome Inconsistency Unit
  | [] => .done ()
  | vmId :: rest => do
    demandThat ((pool.vms.get? vmId).bind (·.migrationTarget) == some host.id)
      (.strayReservation host.id vmId)
    pool.checkIncoming host rest

def checkVms (pool : Pool α) (hosts : List (Host α)) : List (Vm α) → Outcome Inconsistency Unit
  | [] => .done ()
  | vm :: rest => do
    let owners := hosts.countP (·.resident.contains vm.id)
    demandThat (owners == if vm.host.isSome then 1 else 0) (.residentOnHosts vm.id owners)
    match vm.migrationTarget with
    | none => .done ()
    | some target =>
      demandThat ((pool.hosts.get? target).any (·.incoming.contains vm.id))
        (.missingReservation vm.id target)
    pool.checkVms hosts rest

variable [Scalar α]

def checkHosts (pool : Pool α) : List (Host α) → Outcome Inconsistency Unit
  | [] => .done ()
  | host :: rest => do
    let allocated ← host.allocated
    demandThat (host.capacity.shortage allocated).isNone (.capacityExceeded host.id)
    pool.checkResidents host host.resident.keys
    pool.checkIncoming host host.incoming.keys
    pool.checkHosts rest

/-- Done if hosts and VMs agree and no capacity is exceeded. -/
def checkConsistency (pool : Pool α) : Outcome Inconsistency Unit := do
  pool.checkHosts pool.hosts.values
  pool.checkVms pool.hosts.values pool.vms.values

end Pool

end Datacenter
