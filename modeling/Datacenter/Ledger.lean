import Std.Data.TreeSet
import Datacenter.Pool.Basic

/-!
# Saving and rebuilding placements

A ledger remembers where VMs ran and moved at some time. Restoring evicts given hosts and puts given
VMs back where the snapshot had them.
-/

namespace Datacenter

structure SnapshotEntry where
  vm : VmId
  host : Option HostId
  migrationTarget : Option HostId
  deriving DecidableEq

/-- Placements of VMs at some time. -/
structure Snapshot where
  entries : List SnapshotEntry
  deriving DecidableEq

namespace Snapshot

/-- The placements of the given VMs. Unknown ids are passed over. -/
def capture {α : Type} (pool : Pool α) (vms : List VmId) : Snapshot :=
  ⟨vms.filterMap fun id =>
    (pool.vms.get? id).map fun vm => ⟨vm.id, vm.host, vm.migrationTarget⟩⟩

def entryOf (s : Snapshot) (vm : VmId) : Option SnapshotEntry := s.entries.find? (·.vm == vm)

end Snapshot

/-- A pool after an attempt to rebuild it, and why the attempt stopped, if it did. -/
structure Restoration (α : Type) where
  pool : Pool α
  failure : Option RestoreFailure

namespace Restoration

variable {α : Type}

/-- Goes on with the pool unless the attempt has stopped. -/
def andThen (r : Restoration α) (next : Pool α → Checked (Restoration α)) :
    Checked (Restoration α) :=
  match r.failure with
  | none => next r.pool
  | some _ => .ok r

/-- Result of an operation on the pool: a refusal stops the attempt. -/
def ofOutcome (pool : Pool α) (vm : VmId) (host : HostId) :
    Outcome Refusal (Pool α) → Checked (Restoration α)
  | .done pool => .ok ⟨pool, none⟩
  | .refused reason => .ok ⟨pool, some (.refused vm host reason)⟩
  | .fault e => .error e

end Restoration

/-- Keeps the latest snapshot. -/
structure Ledger where
  snapshot : Option Snapshot

namespace Ledger

variable {α : Type}

def empty : Ledger := ⟨none⟩

/-- Replaces the snapshot by the current placements of the given VMs. -/
def save (_ledger : Ledger) (pool : Pool α) (vms : List VmId) : Ledger :=
  ⟨some (Snapshot.capture pool vms)⟩

variable [Scalar α]

/-- Evicts the hosts one after the other. Gives the VMs that were migrating to them at that moment,
with their targets. -/
def evictAll (pool : Pool α) : List HostId → List (VmId × HostId) × Pool α
  | [] => ([], pool)
  | hostId :: rest =>
    let migratingIn := match pool.hosts.get? hostId with
      | none => []
      | some host => host.incoming.keys.map (·, hostId)
    let (later, pool) := evictAll (pool.evictHost hostId).2 rest
    (migratingIn ++ later, pool)

/-- Starts again the migrations of VMs that are not to be restored and still run somewhere. -/
def resume (toRestore : Std.TreeSet VmId) (pool : Pool α) :
    List (VmId × HostId) → Checked (Restoration α)
  | [] => .ok ⟨pool, none⟩
  | (vmId, hostId) :: rest =>
    if toRestore.contains vmId then resume toRestore pool rest
    else match pool.vms.get? vmId with
      | none => .ok ⟨pool, some (.unknownVm vmId)⟩
      | some vm =>
        if vm.host.isSome && !vm.isMigrating then do
          let r ← Restoration.ofOutcome pool vmId hostId (pool.startMigration vmId hostId)
          r.andThen fun pool => resume toRestore pool rest
        else resume toRestore pool rest

/-- Puts a VM on the saved host, if it is elsewhere. -/
def restoreHost (pool : Pool α) (vm : Vm α) (entry : SnapshotEntry) : Checked (Restoration α) :=
  if vm.host = entry.host then .ok ⟨pool, none⟩
  else
    let pool := ((pool.release entry.vm).map Prod.snd).getD pool
    match entry.host with
    | none => .ok ⟨pool, none⟩
    | some hostId => Restoration.ofOutcome pool entry.vm hostId (pool.allocate entry.vm hostId)

/-- Gives a VM the saved migration target, if it has another one. -/
def restoreTarget (pool : Pool α) (entry : SnapshotEntry) : Checked (Restoration α) := do
  let vm ← pool.vm entry.vm
  if vm.migrationTarget = entry.migrationTarget then return ⟨pool, none⟩
  else
    let pool := (pool.cancelMigration entry.vm).toOption.getD pool
    match entry.migrationTarget with
    | none => return ⟨pool, none⟩
    | some target =>
      Restoration.ofOutcome pool entry.vm target (pool.startMigration entry.vm target)

def restoreEntry (pool : Pool α) (entry : SnapshotEntry) : Checked (Restoration α) :=
  match pool.vms.get? entry.vm with
  | none => .ok ⟨pool, some (.unknownVm entry.vm)⟩
  | some vm => do
    let r ← restoreHost pool vm entry
    r.andThen fun pool => restoreTarget pool entry

/-- Restores the saved VMs that are to be restored, in order of the snapshot. -/
def restoreEntries (toRestore : Std.TreeSet VmId) (pool : Pool α) :
    List SnapshotEntry → Checked (Restoration α)
  | [] => .ok ⟨pool, none⟩
  | entry :: rest =>
    if toRestore.contains entry.vm then do
      let r ← restoreEntry pool entry
      r.andThen fun pool => restoreEntries toRestore pool rest
    else restoreEntries toRestore pool rest

/-- Evicts the hosts and rebuilds the saved placements of the VMs to restore. VMs that were
migrating to an evicted host and are not restored keep migrating: they get their room back first. -/
def tryRestore (ledger : Ledger) (pool : Pool α) (toRestore : List VmId) (hosts : List HostId) :
    Checked (Restoration α) :=
  match ledger.snapshot with
  | none => .ok ⟨pool, some .noSnapshot⟩
  | some snapshot => do
    let toRestore := Std.TreeSet.ofList toRestore
    let (migratingIn, pool) := evictAll pool hosts
    let r ← resume toRestore pool migratingIn
    r.andThen fun pool => restoreEntries toRestore pool snapshot.entries

end Ledger

end Datacenter
