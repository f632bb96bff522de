import Datacenter.Pool.Load

/-!
# Running tally of planned loads

While a plan is built, the tally knows the load of each host as if the migrations planned so far had
been started. It takes the load of a host from the pool when it is asked for it the first time, and
holds it from then on.
-/

namespace Datacenter

structure PlannedLoad (α : Type) where
  /-- Load after all planned and current migrations, for the utilization thresholds. -/
  projected : Resources α
  /-- Resources in use or reserved, for the capacity. A migrating VM occupies both its hosts. -/
  committed : Resources α

namespace PlannedLoad

variable {α : Type} [Scalar α]

/-- The load of a host before any migration is planned. -/
def current (pool : Pool α) (hostId : HostId) : Checked (PlannedLoad α) := do
  let projected ← pool.planningLoad hostId
  let host ← pool.host hostId
  let committed ← host.allocated
  return { projected, committed }

def cpuUtilization (load : PlannedLoad α) (host : Host α) : α :=
  load.projected.mips / host.totalMips

def ramUtilization (load : PlannedLoad α) (host : Host α) : α :=
  Scalar.ofNat load.projected.ram.toNat / Scalar.ofNat host.ram.toNat

/-- A host with this load can take the demand: projected CPU and memory utilization stay under the
threshold, and what is committed stays within the capacity. -/
def fits (load : PlannedLoad α) (host : Host α) (demand : Resources α) (upperThreshold : α) :
    Checked Bool := do
  let cpu := (load.projected.mips + demand.mips) / host.totalMips
  let ram ← addWords load.projected.ram demand.ram
  let ram := Scalar.ofNat ram.toNat / Scalar.ofNat host.ram.toNat
  if upperThreshold ≤ cpu ∨ upperThreshold ≤ ram then return false
  else return ((host.capacity.sub load.committed).shortage demand).isNone

/-- The load of a source, which keeps what a VM takes until it has left. -/
def without (load : PlannedLoad α) (demand : Resources α) : PlannedLoad α :=
  { load with projected := load.projected.sub demand }

/-- The load of a target. -/
def plus (load : PlannedLoad α) (demand : Resources α) : Checked (PlannedLoad α) := do
  let projected ← load.projected.add demand
  let committed ← load.committed.add demand
  return { projected, committed }

end PlannedLoad

structure Tally (α : Type) where
  /-- The loads of the hosts that were asked for. -/
  loads : Table HostId (PlannedLoad α)

namespace Tally

variable {α : Type}

def empty : Tally α := ⟨∅⟩

/-- Changes the load of a host, if the tally holds it. -/
def change (tally : Tally α) (hostId : HostId)
    (f : PlannedLoad α → Checked (PlannedLoad α)) : Checked (Tally α) :=
  match tally.loads.get? hostId with
  | some load => do
    let changed ← f load
    return ⟨tally.loads.insert hostId changed⟩
  | none => .ok tally

variable [Scalar α]

/-- The load of a host, and the tally that holds it. -/
def load (tally : Tally α) (pool : Pool α) (hostId : HostId) :
    Checked (PlannedLoad α × Tally α) :=
  match tally.loads.get? hostId with
  | some load => .ok (load, tally)
  | none => do
    let load ← PlannedLoad.current pool hostId
    return (load, ⟨tally.loads.insert hostId load⟩)

def cpuUtilization (tally : Tally α) (pool : Pool α) (hostId : HostId) :
    Checked (α × Tally α) := do
  let (load, tally) ← tally.load pool hostId
  let host ← pool.host hostId
  return (load.cpuUtilization host, tally)

def ramUtilization (tally : Tally α) (pool : Pool α) (hostId : HostId) :
    Checked (α × Tally α) := do
  let (load, tally) ← tally.load pool hostId
  let host ← pool.host hostId
  return (load.ramUtilization host, tally)

/-- Whether the host can take the demand. -/
def fits (tally : Tally α) (pool : Pool α) (hostId : HostId) (demand : Resources α)
    (upperThreshold : α) : Checked (Bool × Tally α) := do
  let (load, tally) ← tally.load pool hostId
  let host ← pool.host hostId
  let fit ← load.fits host demand upperThreshold
  return (fit, tally)

/-- The demand leaves the projection of the source, and counts on the target in both ways. -/
def moveDemand (tally : Tally α) (pool : Pool α) (source target : HostId)
    (demand : Resources α) : Checked (Tally α) := do
  let (_, tally) ← tally.load pool source
  let (_, tally) ← tally.load pool target
  let tally ← tally.change source fun load => .ok (load.without demand)
  tally.change target fun load => load.plus demand

end Tally

end Datacenter
