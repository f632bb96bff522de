import Datacenter.Scalar

/-!
# Power models

A host that is switched on draws its static power plus a dynamic part which follows a curve of the
CPU utilization. Utilizations outside of the unit interval count as its nearer end.
-/

namespace Datacenter

/-- Power consumption of a host in W as a function of its CPU utilization. -/
structure PowerModel (α : Type) where
  /-- Consumption at full load. -/
  maxPower : α
  /-- Consumption without load. -/
  staticPower : α
  draw : α → α

namespace PowerModel

variable {α : Type} [Scalar α]

/-- The dynamic power, `maxPower` less the static part, is scaled by a curve on the unit
interval. -/
def ofCurve (curve : α → α) (maxPower staticFraction : α) : PowerModel α :=
  let staticPower := maxPower * staticFraction
  { maxPower
    staticPower
    draw := fun u => staticPower + (maxPower - staticPower) * curve (Scalar.clampUnit u) }

def linear : α → α → PowerModel α := ofCurve fun u => u

def square : α → α → PowerModel α := ofCurve fun u => u * u

def squareRoot : α → α → PowerModel α := ofCurve Scalar.sqrt

def cubic : α → α → PowerModel α := ofCurve fun u => u * (u * u)

/-- The same consumption under every load. -/
def constant (power : α) : PowerModel α := ⟨power, power, fun _ => power⟩

end PowerModel

end Datacenter
