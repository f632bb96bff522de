import Datacenter.Pool.Load

/-!
# Migrations

A planned migration moves a VM from a source to a target host. It carries the state of both hosts at
planning time for the report.
-/

namespace Datacenter

/-- Why a migration was planned. -/
inductive MigrationReason where
  | distribute
  | consolidate
  deriving DecidableEq

def MigrationReason.name : MigrationReason → String
  | .distribute => "distribute"
  | .consolidate => "consolidate"

/-- State of a host at planning time. -/
structure HostState (α : Type) where
  cpuUtilization : α
  ramUtilization : α
  /-- Share of the maximum power. -/
  power : α

def HostState.capture {α : Type} [Scalar α] (pool : Pool α) (hostId : HostId) :
    Checked (HostState α) := do
  let host ← pool.host hostId
  let cpuUtilization ← pool.cpuUtilization hostId
  let ramUtilization ← pool.ramUtilization hostId
  return { cpuUtilization, ramUtilization, power := host.power / host.powerModel.maxPower }

structure Migration (α : Type) where
  vm : VmId
  source : HostId
  target : HostId
  simulationId : Nat
  reason : MigrationReason
  sourceState : HostState α
  targetState : HostState α
  /-- When the migration was started, if it was. -/
  time : Option α

/-- A row of the migration report. -/
structure MigrationRecord (α : Type) where
  time : α
  simulationId : Nat
  datacenter : String
  vm : VmId
  source : HostId
  target : HostId
  reason : String
  sourceState : HostState α
  targetState : HostState α

/-- A migration that a host did not admit. -/
structure PlanRejection where
  vm : VmId
  target : HostId
  reason : Refusal
  deriving DecidableEq

def PlanRejection.message (r : PlanRejection) : String :=
  "migration of vm #" ++ toString r.vm ++ " to host #" ++ toString r.target ++ " rejected: "
    ++ r.reason.message

namespace Migration

variable {α : Type} [Scalar α]

/-- A planned migration with the current state of both hosts. -/
def plan (pool : Pool α) (vm : VmId) (source target : HostId) (simulationId : Nat)
    (reason : MigrationReason) : Checked (Migration α) := do
  let sourceState ← HostState.capture pool source
  let targetState ← HostState.capture pool target
  return { vm, source, target, simulationId, reason, sourceState, targetState, time := none }

/-- The migration as a row of the report. One that was not started counts as started at zero. -/
def toRecord (m : Migration α) (datacenter : String) : MigrationRecord α where
  time := m.time.getD 0
  simulationId := m.simulationId
  datacenter := datacenter
  vm := m.vm
  source := m.source
  target := m.target
  reason := m.reason.name
  sourceState := m.sourceState
  targetState := m.targetState

end Migration

end Datacenter
