import Datacenter.Decimal.Layout
import Datacenter.Decimal.Reader
import Datacenter.OptionText
import Datacenter.Policy.SingleThreshold

/-!
# Policies by name

A configuration names its policy, possibly with thresholds of its own as options.
-/

namespace Datacenter

/-- Why a name gives no policy. -/
inductive PolicyError (α : Type) where
  | unknownPolicy (name : String)
  | invalidOption (error : OptionError)
  | invalidThresholds (thresholds : Thresholds α)

def PolicyError.message : PolicyError Float → String
  | .unknownPolicy name => "unknown allocation policy: " ++ name
  | .invalidOption error => "invalid policy option: " ++ error.message
  | .invalidThresholds t =>
    "invalid utilization thresholds: lower = " ++ Decimal.plain t.lower ++ ", upper = "
      ++ Decimal.plain t.upper

/-- Names with functions from thresholds to a policy. -/
structure PolicyRegistry (α π : Type) where
  builders : Table String (Thresholds α → Except (PolicyError α) π)

namespace PolicyRegistry

variable {α π : Type}

/-- Adds a policy under the name, in place of an earlier one. -/
def register (r : PolicyRegistry α π) (name : String)
    (build : Thresholds α → Except (PolicyError α) π) : PolicyRegistry α π :=
  ⟨r.builders.insert name build⟩

def contains (r : PolicyRegistry α π) (name : String) : Bool := r.builders.contains name

/-- The policy that needs no registration. -/
def builtIn : PolicyRegistry α (SingleThreshold α) :=
  register ⟨∅⟩ "SingleThreshold" fun thresholds => .ok (.ofThresholds thresholds)

/-- A threshold given as an option, else the default. -/
def threshold (options : OptionTable) (name : String) (default : Float) :
    Except (PolicyError Float) Float :=
  match options.read Decimal.readFloat? name with
  | .ok value => .ok (value.getD default)
  | .error e => .error (.invalidOption e)

/-- Builds the policy that the text names. Thresholds in the text go before the given ones. -/
def resolve (r : PolicyRegistry Float π) (text : String) (thresholds : Thresholds Float) :
    Except (PolicyError Float) π := do
  let choice := Choice.ofText text
  match r.builders.get? choice.name with
  | none => throw (.unknownPolicy choice.name)
  | some build =>
    let options := (choice.options.map OptionTable.ofText).getD ∅
    let upper ← threshold options "upper" thresholds.upper
    let lower ← threshold options "lower" thresholds.lower
    let chosen : Thresholds Float := { upper, lower }
    if chosen.valid then build chosen else throw (.invalidThresholds chosen)

end PolicyRegistry

end Datacenter
