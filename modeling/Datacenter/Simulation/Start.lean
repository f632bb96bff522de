import Datacenter.Config.Error
import Datacenter.Simulation.Basic

/-!
# Simulations from configurations

The hosts and VMs of a configuration are created group by group. Power models and the policy are
looked up by their names; a group without hosts needs no power model.
-/

namespace Datacenter

/-- A host of a group, which are numbered from zero on. -/
def HostGroup.spec {α : Type} (group : HostGroup α) (model : PowerModel α) (index : Nat) :
    HostSpec α where
  name := group.hostName index
  cores := group.cores
  mipsPerCore := group.mipsPerCore
  ram := group.ram
  bandwidth := group.bandwidth
  storage := group.storage
  powerModel := model

namespace Simulation

variable {α π : Type} [Scalar α]

/-- Adds the hosts of groups, up to a group without a power model. -/
def addHostGroups (models : PowerModelRegistry α) (sim : Simulation α π) :
    List (HostGroup α) → Logged α (Except (ConfigError α) (Simulation α π))
  | [] => return .ok sim
  | group :: rest => do
    if group.count = 0 then addHostGroups models sim rest
    else
      match group.resolveModel models with
      | .error e => return .error e
      | .ok model =>
        let sim ← Logged.fold
          (fun sim index => Prod.snd <$> sim.addHost (group.spec model index)) sim
          (List.range group.count)
        addHostGroups models sim rest

/-- Submits the VMs of a group. -/
def submitVmGroup [AllocationPolicy α π] (sim : Simulation α π) (group : VmGroup α) :
    Logged α (Simulation α π) :=
  Logged.fold (fun sim spec => Prod.snd <$> sim.submitVm spec) sim
    (List.replicate group.count group.spec)

/-- A simulation with the hosts and VMs of a configuration. -/
def ofConfig {π : Type} [AllocationPolicy Float π] (config : Config Float) (id : Nat)
    (models : PowerModelRegistry Float) (policies : PolicyRegistry Float π) :
    Logged Float (Except (ConfigError Float) (Simulation Float π)) := do
  match config.resolvePolicy policies with
  | .error e => return .error e
  | .ok policy =>
    match ← (create config policy id).addHostGroups models config.hosts with
    | .error e => return .error e
    | .ok sim => return .ok (← Logged.fold submitVmGroup sim config.vms)

end Simulation

end Datacenter
