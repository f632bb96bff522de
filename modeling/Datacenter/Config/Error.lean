import Datacenter.Config.Basic
import Datacenter.FileError
import Datacenter.Policy.Registry
import Datacenter.Power.Registry

/-!
# Configurations that cannot be used
-/

namespace Datacenter

inductive ConfigError (α : Type) where
  | unreadable (path : String) (error : FileError)
  | malformed
  | invalid (reason : InvalidConfig α)
  | powerModel (error : PowerModelError α)
  | policy (error : PolicyError α)

def InvalidConfig.message : InvalidConfig Float → String
  | .thresholds t =>
    "thresholds must satisfy 0 < lower < upper <= 1, got lower = " ++ Decimal.plain t.lower
      ++ ", upper = " ++ Decimal.plain t.upper
  | .interval => "intervals must be positive"
  | .historyLength => "history_length must be at least 1"
  | .migrationOverhead => "migration_overhead must be non-negative"
  | .hostGroup name => "hosts " ++ name ++ " must have positive cores, mips_per_core and ram"
  | .vmGroup tenant =>
    "vms of tenant " ++ tenant ++ " must have positive cores and non-negative mips"

def ConfigError.message : ConfigError Float → String
  | .unreadable path error => "can't read file " ++ path ++ ": " ++ error.message
  | .malformed => "can't parse YAML"
  | .invalid reason => "invalid configuration: " ++ reason.message
  | .powerModel error => error.message
  | .policy error => error.message

/-! ### Names in a configuration -/

namespace HostGroup

variable {α : Type} [Scalar α]

/-- The power model of the hosts. -/
def resolveModel (group : HostGroup α) (models : PowerModelRegistry α) :
    Except (ConfigError α) (PowerModel α) :=
  match models.resolve group.powerModel group.maxPower group.staticFraction with
  | .ok model => .ok model
  | .error e => .error (.powerModel e)

end HostGroup

namespace Config

variable {π : Type}

/-- The policy with the thresholds of the configuration, unless its options set others. -/
def resolvePolicy (config : Config Float) (policies : PolicyRegistry Float π) :
    Except (ConfigError Float) π :=
  match policies.resolve config.policy config.thresholds with
  | .ok policy => .ok policy
  | .error e => .error (.policy e)

/-- Whether all power models, and then the policy, can be resolved. -/
def validate (config : Config Float) (models : PowerModelRegistry Float)
    (policies : PolicyRegistry Float π) : Except (ConfigError Float) Unit := do
  config.hosts.forM fun group => discard (group.resolveModel models)
  discard (config.resolvePolicy policies)

end Config

end Datacenter
