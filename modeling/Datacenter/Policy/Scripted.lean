import Datacenter.Policy.Basic

/-!
# A policy that follows a script

The script names the host for each VM and one plan for each optimization pass. Once it is used up,
passes plan nothing.
-/

namespace Datacenter

/-- A migration as a script states it. -/
structure ScriptedMove (α : Type) where
  vm : VmId
  source : HostId
  target : HostId
  reason : MigrationReason
  /-- Report the states of the hosts as zero, whether the hosts exist or not. -/
  withoutStates : Bool

/-- The planned migration, with the current states of its hosts if they are asked for. -/
def ScriptedMove.plan {α : Type} [Scalar α] (move : ScriptedMove α) (pool : Pool α)
    (simulationId : Nat) : Checked (Migration α) :=
  if move.withoutStates then
    let state : HostState α := ⟨0, 0, 0⟩
    .ok {
      vm := move.vm, source := move.source, target := move.target, simulationId
      reason := move.reason, sourceState := state, targetState := state, time := none }
  else Migration.plan pool move.vm move.source move.target simulationId move.reason

structure Scripted (α : Type) where
  choices : List (VmId × HostId)
  plans : List (List (ScriptedMove α))
  ledger : Ledger

instance {α : Type} [Scalar α] : AllocationPolicy α (Scripted α) where
  name _ := "Scripted"
  thresholds _ := ⟨1, 0⟩
  selectHost policy _ vm := .ok (policy.choices.lookup vm)
  optimize policy pool _ simulationId := do
    match policy.plans with
    | [] => return ([], policy)
    | moves :: later =>
      let migrations ← moves.mapM fun move => move.plan pool simulationId
      return (migrations, { policy with plans := later })
  save policy pool vms := { policy with ledger := policy.ledger.save pool vms }
  restore policy pool vms hosts := policy.ledger.restore pool vms hosts

end Datacenter
