import Datacenter.Ledger
import Datacenter.Log.Event

/-!
# Allocation policies

A policy chooses hosts for new VMs and plans migrations from time to time. It reads the pool and
changes nothing in it: plans are carried out by its caller, who saves placements before a plan and
may have them restored after it.
-/

namespace Datacenter

/-- What a policy decides, over states of type `π`. -/
class AllocationPolicy (α : outParam Type) (π : Type) where
  name : π → String
  thresholds : π → Thresholds α
  /-- The host for a VM, if one suits. -/
  selectHost : π → Pool α → VmId → Checked (Option HostId)
  /-- Migrations that would improve the placement; the number names the simulation. -/
  optimize : π → Pool α → Monitoring α → Nat → Logged α (List (Migration α) × π)
  save : π → Pool α → List VmId → π
  /-- Evicts hosts and restores saved placements of VMs. -/
  restore : π → Pool α → List VmId → List HostId → Logged α (Pool α)

/-- Restoring a placement has to succeed: anything else ends the run. -/
def Ledger.restore {α : Type} [Scalar α] (ledger : Ledger) (pool : Pool α) (toRestore : List VmId)
    (hosts : List HostId) : Logged α (Pool α) := do
  let r ← ledger.tryRestore pool toRestore hosts
  match r.failure with
  | none => return r.pool
  | some failure => do
    Logged.note (.restoreFailed failure)
    Logged.fail (.restoreFailed failure)

namespace AllocationPolicy

variable {α π : Type} [Scalar α] [AllocationPolicy α π]

/-- Places a VM on the host that the policy selects. -/
def place (policy : π) (pool : Pool α) (vm : VmId) :
    Outcome PlacementError (HostId × Pool α) :=
  if !pool.vms.contains vm then .refused (.vmNotFound vm)
  else do
    let selected ← selectHost policy pool vm
    let host ← Outcome.ofOption (.noSuitableHost vm) selected
    let pool ← (pool.allocate vm host).mapRefusal (.rejected vm host)
    return (host, pool)

end AllocationPolicy

end Datacenter
