import Datacenter.Decimal.Layout
import Datacenter.Power.Model
import Datacenter.Sort.Insertion
import Datacenter.Table

/-!
# Power models by alias
-/

namespace Datacenter

/-- Why an alias gives no power model. -/
inductive PowerModelError (α : Type) where
  | unknownModel (name : String)
  | invalidParameters (name : String) (maxPower staticFraction : α)

def PowerModelError.message : PowerModelError Float → String
  | .unknownModel name => "unknown power model: " ++ name
  | .invalidParameters name maxPower staticFraction =>
    "invalid parameters for power model " ++ name ++ ": max_power = " ++ Decimal.plain maxPower
      ++ ", static_power_fraction = " ++ Decimal.plain staticFraction

/-- Aliases with functions from the maximum power and the static fraction to a model. -/
structure PowerModelRegistry (α : Type) where
  builders : Table String (α → α → PowerModel α)

namespace PowerModelRegistry

variable {α : Type}

def empty : PowerModelRegistry α := ⟨∅⟩

/-- Adds a model under the alias, in place of an earlier one. -/
def register (r : PowerModelRegistry α) (name : String) (build : α → α → PowerModel α) :
    PowerModelRegistry α :=
  ⟨r.builders.insert name build⟩

def contains (r : PowerModelRegistry α) (name : String) : Bool := r.builders.contains name

/-- The aliases in lexicographic order. -/
def aliases (r : PowerModelRegistry α) : List String :=
  insertionSort (fun a b => a < b) r.builders.keys

variable [Scalar α]

/-- The models that need no registration. -/
def builtIn : PowerModelRegistry α :=
  empty
    |>.register "Linear" PowerModel.linear
    |>.register "Square" PowerModel.square
    |>.register "SquareRoot" PowerModel.squareRoot
    |>.register "Square root" PowerModel.squareRoot
    |>.register "Cubic" PowerModel.cubic

/-- The model under the alias, for a positive maximum power and a static fraction from 0 to 1. -/
def resolve (r : PowerModelRegistry α) (name : String) (maxPower staticFraction : α) :
    Except (PowerModelError α) (PowerModel α) :=
  match r.builders.get? name with
  | none => .error (.unknownModel name)
  | some build =>
    if 0 < maxPower ∧ 0 ≤ staticFraction ∧ staticFraction ≤ 1 then
      .ok (build maxPower staticFraction)
    else .error (.invalidParameters name maxPower staticFraction)

end PowerModelRegistry

end Datacenter
