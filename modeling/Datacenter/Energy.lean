import Datacenter.Outcome
import Datacenter.Scalar
import Datacenter.Sort.Insertion
import Datacenter.Table

/-!
# Metered energy

A meter is told about each change of a host's power, and counts the power before it as constant
since the last change.
-/

namespace Datacenter

/-- Energy of one host in J up to a time, and its power in W since then. -/
structure HostMeter (α : Type) where
  consumed : α
  power : α
  since : α

/-- The meter of a host that has the given power from the given time on. -/
def HostMeter.advance {α : Type} [Scalar α] (meter : HostMeter α) (time power : α) :
    HostMeter α where
  consumed := meter.consumed + (time - meter.since) * meter.power
  power := power
  since := time

structure EnergyMeter (α : Type) where
  hosts : Table HostId (HostMeter α)

namespace EnergyMeter

variable {α : Type}

def empty : EnergyMeter α := ⟨∅⟩

/-- Energies by host, in ascending order of their ids. -/
def byHost (meter : EnergyMeter α) : List (HostId × α) :=
  insertionSort (fun a b => a.1 < b.1)
    (meter.hosts.entries.map fun (id, host) => (id, host.consumed))

variable [Scalar α]

/-- The power of the host is the given one from the given time on. -/
def update (meter : EnergyMeter α) (host : HostId) (time power : α) : EnergyMeter α :=
  let last := (meter.hosts.get? host).getD ⟨0, 0, time⟩
  ⟨meter.hosts.insert host (last.advance time power)⟩

/-- Known hosts have the given powers from the given time on, if they are given one. -/
def updateAll (meter : EnergyMeter α) (time : α) (power? : HostId → Option α) : EnergyMeter α :=
  ⟨meter.hosts.map fun host last =>
    match power? host with
    | some power => last.advance time power
    | none => last⟩

/-- Energy of the host in J, zero for an unknown one. -/
def hostEnergy (meter : EnergyMeter α) (host : HostId) : α :=
  match meter.hosts.get? host with
  | some host => host.consumed
  | none => 0

/-- Energy of all hosts in J. -/
def total (meter : EnergyMeter α) : α := Scalar.sum (meter.byHost.map Prod.snd)

end EnergyMeter

end Datacenter
