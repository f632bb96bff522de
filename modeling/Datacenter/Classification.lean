import Datacenter.Monitoring

/-!
# Overloaded and underloaded hosts

A host is overloaded if the smoothed utilization of its CPU or its memory is above the upper
threshold, and otherwise underloaded if the instantaneous utilization of both is below the lower
one.
-/

namespace Datacenter

inductive LoadStatus where
  | overloaded
  | underloaded
  | normal
  deriving DecidableEq

def LoadStatus.name : LoadStatus → String
  | .overloaded => "overloaded"
  | .underloaded => "underloaded"
  | .normal => "normal"

/-- Utilization of one resource of a host. -/
structure Reading (α : Type) where
  /-- Under the planning load. -/
  instantaneous : α
  /-- Mean of the monitoring window, if it has samples. -/
  historyAverage : Option α

/-- The mean of the instantaneous value and of the history, if there is one. -/
def Reading.smoothed {α : Type} [Scalar α] (r : Reading α) : α :=
  match r.historyAverage with
  | some average => (r.instantaneous + average) / Scalar.ofNat 2
  | none => r.instantaneous

structure Classification (α : Type) where
  host : HostId
  status : LoadStatus
  cpu : Reading α
  ram : Reading α

structure Thresholds (α : Type) where
  upper : α
  lower : α

namespace Thresholds

variable {α : Type} [Scalar α]

/-- Zero, the lower and the upper threshold ascend, and the upper one is at most one. -/
def valid (t : Thresholds α) : Bool :=
  0 < t.lower && t.lower < t.upper && t.upper ≤ 1

def status (t : Thresholds α) (cpu ram : Reading α) : LoadStatus :=
  if t.upper < cpu.smoothed ∨ t.upper < ram.smoothed then .overloaded
  else if cpu.instantaneous < t.lower ∧ ram.instantaneous < t.lower then .underloaded
  else .normal

def classify (t : Thresholds α) (pool : Pool α) (monitoring : Monitoring α) (host : HostId) :
    Checked (Classification α) := do
  let cpu : Reading α := ⟨← pool.cpuUtilization host, monitoring.average host .cpu⟩
  let ram : Reading α := ⟨← pool.ramUtilization host, monitoring.average host .ram⟩
  return ⟨host, t.status cpu ram, cpu, ram⟩

/-- Classifies all hosts of the pool, in order of their creation. -/
def classifyAll (t : Thresholds α) (pool : Pool α) (monitoring : Monitoring α) :
    Checked (List (Classification α)) :=
  pool.hostIds.mapM (t.classify pool monitoring)

end Thresholds

end Datacenter
