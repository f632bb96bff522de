import Datacenter.Pool.Load
import Datacenter.Queue

/-!
# Recent utilization

Monitoring keeps the last samples of each host and resource, at most as many as its window is long.
-/

namespace Datacenter

structure Monitoring (α : Type) where
  /-- Number of samples that are kept, at least one. -/
  window : Nat
  cpu : Table HostId (Queue α)
  ram : Table HostId (Queue α)

namespace Monitoring

variable {α : Type}

def ofLength (historyLength : Nat) : Monitoring α := ⟨max historyLength 1, ∅, ∅⟩

/-- The kept samples of a host. -/
def samples (m : Monitoring α) (host : HostId) : ResourceKind → Queue α
  | .cpu => (m.cpu.get? host).getD .empty
  | .ram => (m.ram.get? host).getD .empty

def withSamples (m : Monitoring α) (host : HostId) (samples : Queue α) :
    ResourceKind → Monitoring α
  | .cpu => { m with cpu := m.cpu.insert host samples }
  | .ram => { m with ram := m.ram.insert host samples }

/-- The kept samples, oldest first. -/
def history (m : Monitoring α) (host : HostId) (resource : ResourceKind) : List α :=
  (m.samples host resource).toList

/-- Adds a sample, in place of the oldest one if the window is full. -/
def record (m : Monitoring α) (host : HostId) (resource : ResourceKind) (utilization : α) :
    Monitoring α :=
  let kept := m.samples host resource
  let kept := if kept.size = m.window then kept.dropFirst else kept
  m.withSamples host (kept.push utilization) resource

def clear (m : Monitoring α) : Monitoring α := { m with cpu := ∅, ram := ∅ }

variable [Scalar α]

/-- Mean of the kept samples, if there are any. -/
def average (m : Monitoring α) (host : HostId) (resource : ResourceKind) : Option α :=
  let samples := m.samples host resource
  if samples.size = 0 then none
  else some (samples.foldl (· + ·) (-0) / Scalar.ofNat samples.size)

/-- Records the planning utilization of every host. -/
def collect (m : Monitoring α) (pool : Pool α) : Checked (Monitoring α) :=
  pool.hostIds.foldlM (fun m host => do
    let cpu ← pool.cpuUtilization host
    let ram ← pool.ramUtilization host
    return (m.record host .cpu cpu).record host .ram ram) m

end Monitoring

end Datacenter
