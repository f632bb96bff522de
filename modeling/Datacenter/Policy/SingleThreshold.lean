import Datacenter.Planner
import Datacenter.Policy.Basic
import Datacenter.Selector
import Datacenter.Sort

/-!
# The single-threshold policy

New VMs go to the host whose consumption grows the least. An optimization pass first moves VMs from
overloaded hosts to the other ones, and then empties underloaded hosts onto active ones. No host is
both a source and a target in a pass.
-/

namespace Datacenter

structure SingleThreshold (α : Type) where
  thresholds : Thresholds α
  ledger : Ledger

namespace SingleThreshold

variable {α : Type}

def ofThresholds (thresholds : Thresholds α) : SingleThreshold α := ⟨thresholds, .empty⟩

variable [Scalar α]

def selectHost (policy : SingleThreshold α) (pool : Pool α) (vm : VmId) :
    Checked (Option HostId) :=
  Selector.selectAmong ⟨policy.thresholds.upper⟩ pool vm pool.hosts.values

/-! ### Orders of hosts -/

/-- The hosts that stand with keys, in the order of these. Keys that are no numbers can make the
order contradict itself. -/
def inOrderOf {κ : Type} (less : HostId × κ → HostId × κ → Bool) (keyed : List (HostId × κ)) :
    Checked (List HostId) :=
  match stableSort? less keyed with
  | some sorted => .ok (sorted.map Prod.fst)
  | none => .error .noOrder

/-- Hosts with the largest consumption first. -/
def byDescendingPower (pool : Pool α) (hosts : List HostId) : Checked (List HostId) := do
  let keyed ← hosts.mapM fun id => do
    let host ← pool.host id
    return (id, host.power)
  inOrderOf (fun a b => b.2 < a.2) keyed

/-- Hosts with the smallest CPU utilization first. -/
def byUtilization (pool : Pool α) (hosts : List HostId) : Checked (List HostId) := do
  let keyed ← hosts.mapM fun id => do
    let utilization ← pool.cpuUtilization id
    return (id, utilization)
  inOrderOf (fun a b => a.2 < b.2) keyed

/-- Active hosts before idle ones, and those with a smaller CPU utilization first. -/
def activeByUtilization (pool : Pool α) (hosts : List HostId) : Checked (List HostId) := do
  let keyed ← hosts.mapM fun id => do
    let active ← pool.isActive id
    let utilization ← pool.cpuUtilization id
    return (id, active, utilization)
  let less (a b : HostId × Bool × α) : Bool :=
    (a.2.1 && !b.2.1) || (a.2.1 == b.2.1 && a.2.2 < b.2.2)
  inOrderOf less keyed

/-! ### The two phases -/

/-- Moves VMs off each source in turn. -/
def distributeAll (planner : Planner α) (targets : List HostId) (upper : α) :
    List HostId → Logged α (List (Migration α) × Planner α)
  | [] => return ([], planner)
  | source :: rest => do
    let (migrations, planner) ← planner.distribute source targets upper
    if migrations.isEmpty then Logged.note (.hostNotRelieved source)
    let (later, planner) ← distributeAll planner targets upper rest
    return (migrations ++ later, planner)

/-- Empties each source in turn, unless it became a target. Emptied hosts take no more VMs. -/
def consolidateAll (planner : Planner α) (targets : List HostId) (excluded : Std.TreeSet HostId)
    (upper : α) : List HostId → Logged α (List (Migration α))
  | [] => return []
  | source :: rest =>
    if planner.isPlannedTarget source then consolidateAll planner targets excluded upper rest
    else do
      let (migrations, planner) ← planner.consolidate source targets excluded upper
      if migrations.isEmpty then
        Logged.note (.hostNotConsolidated source)
        consolidateAll planner targets excluded upper rest
      else
        let later ← consolidateAll planner targets (excluded.insert source) upper rest
        return migrations ++ later

/-- Plans a pass: first overloaded hosts, those with the largest consumption first, then underloaded
ones, those with the smallest CPU utilization first. -/
def plan (thresholds : Thresholds α) (pool : Pool α) (monitoring : Monitoring α)
    (simulationId : Nat) : Logged α (List (Migration α)) := do
  let classifications ← thresholds.classifyAll pool monitoring
  Logged.noteAll (classifications.map .hostClassified)
  let ids (p : Classification α → Bool) := (classifications.filter p).map (·.host)
  let overloaded := ids (·.status = .overloaded)
  let others := ids (·.status ≠ .overloaded)
  let planner := Planner.start pool simulationId
  let (distributed, planner) ←
    if overloaded.isEmpty || others.isEmpty then pure ([], planner)
    else do
      let sources ← byDescendingPower pool overloaded
      let targets ← activeByUtilization pool others
      distributeAll planner targets thresholds.upper sources
  let targets ← others.filterM fun id => pool.isActive id
  let underloaded ← (ids (·.status = .underloaded)).filterM fun id => pool.isActive id
  let sources ← byUtilization pool underloaded
  let consolidated ← consolidateAll planner targets ∅ thresholds.upper sources
  return distributed ++ consolidated

instance : AllocationPolicy α (SingleThreshold α) where
  name _ := "SingleThreshold"
  thresholds policy := policy.thresholds
  selectHost := selectHost
  optimize policy pool monitoring simulationId := do
    let migrations ← plan policy.thresholds pool monitoring simulationId
    return (migrations, policy)
  save policy pool vms := { policy with ledger := policy.ledger.save pool vms }
  restore policy pool vms hosts := policy.ledger.restore pool vms hosts

end SingleThreshold

end Datacenter
