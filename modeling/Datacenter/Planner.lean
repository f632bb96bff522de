import Std.Data.TreeSet
import Datacenter.Migration
import Datacenter.Tally

/-!
# Migration planning

A planner builds migrations against a pool that it does not change. All its plans share one tally,
so room that one migration takes or frees counts for the next ones. `distribute` moves VMs off a
host until it is under the threshold; `consolidate` empties a host or plans nothing. Whatever is
asked, the tally may hold more loads after it.
-/

namespace Datacenter

structure Planner (α : Type) where
  pool : Pool α
  simulationId : Nat
  tally : Tally α
  plannedTargets : Std.TreeSet HostId
  plannedVms : Std.TreeSet VmId

namespace Planner

variable {α : Type}

def start (pool : Pool α) (simulationId : Nat) : Planner α :=
  { pool, simulationId, tally := .empty, plannedTargets := ∅, plannedVms := ∅ }

/-- Some VM is planned to move to the host. -/
def isPlannedTarget (p : Planner α) (host : HostId) : Bool := p.plannedTargets.contains host

/-- VMs of the source that neither migrate nor are planned to. -/
def candidateVms (p : Planner α) (source : HostId) : Checked (List VmId) := do
  let vms ← p.pool.migratableVms source
  return vms.filter (!p.plannedVms.contains ·)

variable [Scalar α]

/-- The first known target that has room for the demand. The source and skipped hosts are none. -/
def firstFit (p : Planner α) (demand : Resources α) (source : HostId)
    (skip : Std.TreeSet HostId) (upperThreshold : α) :
    List HostId → Checked (Option HostId × Planner α)
  | [] => .ok (none, p)
  | target :: rest => do
    if target = source ∨ skip.contains target ∨ !p.pool.hosts.contains target then
      p.firstFit demand source skip upperThreshold rest
    else do
      let (fit, tally) ← p.tally.fits p.pool target demand upperThreshold
      let p := { p with tally }
      if fit then return (some target, p)
      else p.firstFit demand source skip upperThreshold rest

/-- Plans one migration. -/
def plan (p : Planner α) (vmId : VmId) (source target : HostId) (reason : MigrationReason) :
    Checked (Migration α × Planner α) := do
  let vm ← p.pool.vm vmId
  let tally ← p.tally.moveDemand p.pool source target vm.demand
  let migration ← Migration.plan p.pool vmId source target p.simulationId reason
  return (migration,
    { p with
      tally, plannedTargets := p.plannedTargets.insert target
      plannedVms := p.plannedVms.insert vmId })

/-- The projected CPU and memory utilization of the host are below the threshold. -/
def isRelieved (p : Planner α) (host : HostId) (upperThreshold : α) :
    Checked (Bool × Planner α) := do
  let (cpu, tally) ← p.tally.cpuUtilization p.pool host
  if cpu < upperThreshold then do
    let (ram, tally) ← tally.ramUtilization p.pool host
    return (ram < upperThreshold, { p with tally })
  else return (false, { p with tally })

/-! ### Relieving a host -/

/-- Moves VMs to their first fitting targets until the source is relieved. VMs that fit nowhere are
passed over. -/
def distributeVms (p : Planner α) (source : HostId) (targets : List HostId) (upperThreshold : α) :
    List VmId → Checked (List (Migration α) × Planner α)
  | [] => .ok ([], p)
  | vmId :: rest => do
    let vm ← p.pool.vm vmId
    let (target?, p) ← p.firstFit vm.demand source ∅ upperThreshold targets
    match target? with
    | none => p.distributeVms source targets upperThreshold rest
    | some target => do
      let (migration, p) ← p.plan vmId source target .distribute
      let (relieved, p) ← p.isRelieved source upperThreshold
      if relieved then return ([migration], p)
      else do
        let (migrations, p) ← p.distributeVms source targets upperThreshold rest
        return (migration :: migrations, p)

/-- Moves just enough VMs off the source, in order of their creation. -/
def distribute (p : Planner α) (source : HostId) (targets : List HostId) (upperThreshold : α) :
    Checked (List (Migration α) × Planner α) := do
  let vms ← p.candidateVms source
  p.distributeVms source targets upperThreshold vms

/-! ### Emptying a host -/

/-- Moves VMs to their first fitting targets, up to the first VM that fits nowhere. -/
def emptyVms (p : Planner α) (source : HostId) (targets : List HostId)
    (excluded : Std.TreeSet HostId) (upperThreshold : α) :
    List VmId → Checked (List (Migration α) × Planner α)
  | [] => .ok ([], p)
  | vmId :: rest => do
    let vm ← p.pool.vm vmId
    let (target?, p) ← p.firstFit vm.demand source excluded upperThreshold targets
    match target? with
    | none => return ([], p)
    | some target => do
      let (migration, p) ← p.plan vmId source target .consolidate
      let (migrations, p) ← p.emptyVms source targets excluded upperThreshold rest
      return (migration :: migrations, p)

/-- Moves all VMs off the source. If compute or memory load would remain on it, nothing is planned
and the planner is the one from before. -/
def consolidate (p : Planner α) (source : HostId) (targets : List HostId)
    (excluded : Std.TreeSet HostId) (upperThreshold : α) :
    Checked (List (Migration α) × Planner α) := do
  if !p.pool.hosts.contains source then return ([], p)
  else do
    let vms ← p.candidateVms source
    let (migrations, planned) ← p.emptyVms source targets excluded upperThreshold vms
    let (load, tally) ← planned.tally.load planned.pool source
    let remaining := load.projected
    if Scalar.epsilon < remaining.mips ∨ 0 < remaining.ram then return ([], p)
    else return (migrations, { planned with tally })

end Planner

end Datacenter
