import Datacenter.Power.Model
import Datacenter.Table
import Datacenter.Vm

/-!
# Hosts

A host gives resources to the VMs that run on it (residents) and keeps resources for the VMs that
migrate to it (incoming). Both count against its capacity, so an incoming VM always finds its room
when it lands. Totals of both groups are kept along with them.
-/

namespace Datacenter

/-- What a host is created with. Rates are per core. -/
structure HostSpec (α : Type) where
  name : String
  cores : Nat
  mipsPerCore : α
  ram : UInt64
  bandwidth : UInt64
  storage : UInt64
  powerModel : PowerModel α

structure Host (α : Type) extends HostSpec α where
  id : HostId
  resident : Table VmId (Resources α)
  incoming : Table VmId (Resources α)
  residentTotal : Resources α
  incomingTotal : Resources α

namespace Host

variable {α : Type}

/-- A host that neither runs nor expects a VM is idle, and switched off. -/
def isIdle (host : Host α) : Bool := host.resident.isEmpty && host.incoming.isEmpty

/-- The VM runs on the host or is expected by it. -/
def holds (host : Host α) (vm : VmId) : Bool :=
  host.resident.contains vm || host.incoming.contains vm

variable [Scalar α]

def create (id : HostId) (spec : HostSpec α) : Host α :=
  { spec with
    id, resident := ∅, incoming := ∅, residentTotal := .zero, incomingTotal := .zero }

/-! ### Capacity and load -/

def totalMips (host : Host α) : α := Scalar.ofNat host.cores * host.mipsPerCore

def capacity (host : Host α) : Resources α :=
  ⟨host.totalMips, host.ram, host.bandwidth, host.storage⟩

/-- Resources of residents and of incoming VMs. -/
def allocated (host : Host α) : Checked (Resources α) := host.residentTotal.add host.incomingTotal

/-- What is left of the capacity. -/
def available (host : Host α) : Checked (Resources α) := do
  let allocated ← host.allocated
  return host.capacity.sub allocated

/-- The first dimension in which the demand does not fit into what is left. -/
def shortage (host : Host α) (demand : Resources α) : Checked (Option Dimension) := do
  let available ← host.available
  return available.shortage demand

/-- Share of the compute capacity that residents use. -/
def cpuUtilization (host : Host α) : α := host.residentTotal.mips / host.totalMips

/-- Share of the memory that residents use. -/
def ramUtilization (host : Host α) : α :=
  Scalar.ofNat host.residentTotal.ram.toNat / Scalar.ofNat host.ram.toNat

/-- Current consumption in W. -/
def power (host : Host α) : α :=
  if host.isIdle then 0 else host.powerModel.draw host.cpuUtilization

/-! ### Changes -/

/-- Done if nothing is short. -/
def roomOrRefuse : Option Dimension → Outcome Refusal Unit
  | none => .done ()
  | some dimension => .refused (.notEnough dimension)

def allocate (host : Host α) (vm : VmId) (demand : Resources α) : Outcome Refusal (Host α) :=
  if host.holds vm then .refused .alreadyAllocated
  else do
    roomOrRefuse (← host.shortage demand)
    let total ← host.residentTotal.add demand
    return { host with resident := host.resident.insert vm demand, residentTotal := total }

def release (host : Host α) (vm : VmId) : Host α :=
  match host.resident.get? vm with
  | none => host
  | some demand =>
    { host with
      resident := host.resident.erase vm
      residentTotal := host.residentTotal.sub demand }

def reserve (host : Host α) (vm : VmId) (demand : Resources α) : Outcome Refusal (Host α) :=
  if host.holds vm then .refused .alreadyAllocated
  else do
    roomOrRefuse (← host.shortage demand)
    let total ← host.incomingTotal.add demand
    return { host with incoming := host.incoming.insert vm demand, incomingTotal := total }

/-- Drops the reservation of an incoming VM. -/
def cancel (host : Host α) (vm : VmId) : Host α :=
  match host.incoming.get? vm with
  | none => host
  | some demand =>
    { host with
      incoming := host.incoming.erase vm
      incomingTotal := host.incomingTotal.sub demand }

/-- Makes an incoming VM a resident. -/
def land (host : Host α) (vm : VmId) : Outcome Refusal (Host α) :=
  match host.incoming.get? vm with
  | none => .refused .notAllocated
  | some demand => do
    let host := host.cancel vm
    let total ← host.residentTotal.add demand
    return { host with resident := host.resident.insert vm demand, residentTotal := total }

/-- Gives a resident other resources, which have to fit into what is left and what it has. -/
def resize (host : Host α) (vm : VmId) (demand : Resources α) : Outcome Refusal (Host α) :=
  match host.resident.get? vm with
  | none => .refused .notAllocated
  | some current => do
    let available ← host.available
    let available ← available.add current
    roomOrRefuse (available.shortage demand)
    let total ← (host.residentTotal.sub current).add demand
    return { host with resident := host.resident.insert vm demand, residentTotal := total }

end Host

end Datacenter
