import Datacenter.Resources

/-!
# Virtual machines

A VM asks for cores, memory, bandwidth and room for its image. Its placement is the host that runs
it and, during a migration, the host that it moves to.
-/

namespace Datacenter

/-- What a VM is created with. Rates are per core. -/
structure VmSpec (α : Type) where
  tenant : String
  cores : Nat
  mips : α
  ram : UInt64
  bandwidth : UInt64
  imageSize : UInt64

structure Vm (α : Type) extends VmSpec α where
  id : VmId
  host : Option HostId
  migrationTarget : Option HostId
  /-- Not placed since its creation. Such a VM may fill a host up to its capacity. -/
  beingInstantiated : Bool

inductive VmStatus where
  | unplaced
  | placed
  | migrating
  deriving DecidableEq

def VmStatus.name : VmStatus → String
  | .unplaced => "unplaced"
  | .placed => "placed"
  | .migrating => "migrating"

namespace Vm

variable {α : Type}

def create (id : VmId) (spec : VmSpec α) : Vm α :=
  { spec with id, host := none, migrationTarget := none, beingInstantiated := true }

def isMigrating (vm : Vm α) : Bool := vm.migrationTarget.isSome

def status (vm : Vm α) : VmStatus :=
  match vm.host, vm.migrationTarget with
  | none, _ => .unplaced
  | some _, none => .placed
  | some _, some _ => .migrating

/-- The VM as it runs on the host, moving nowhere. -/
def runningOn (vm : Vm α) (host : HostId) : Vm α :=
  { vm with host := some host, migrationTarget := none, beingInstantiated := false }

def movingTo (vm : Vm α) (target : HostId) : Vm α := { vm with migrationTarget := some target }

/-- The VM as it stays where it is. -/
def staying (vm : Vm α) : Vm α := { vm with migrationTarget := none }

def unplaced (vm : Vm α) : Vm α := { vm with host := none, migrationTarget := none }

variable [Scalar α]

def totalMips (vm : Vm α) : α := Scalar.ofNat vm.cores * vm.mips

/-- What the VM takes from the host that it runs on or moves to. -/
def demand (vm : Vm α) : Resources α := ⟨vm.totalMips, vm.ram, vm.bandwidth, vm.imageSize⟩

/-- Seconds that a migration takes: the memory is sent over the bandwidth, and a constant overhead
is added. Without bandwidth there is only the overhead. -/
def migrationDuration (vm : Vm α) (overhead : α) : α :=
  if vm.bandwidth = 0 then overhead
  else
    Scalar.ofNat vm.ram.toNat / (Scalar.ofNat vm.bandwidth.toNat / Scalar.ofNat 8000) + overhead

end Vm

end Datacenter
