import Datacenter.Proofs.Capacity

/-!
# Where VMs end up

The destination of a VM is the host that it runs on once all migrations under way have landed. What
hosts hold adds up, over the records, to what runs there and what moves there, so the planning load
of a host is at least what its records bring to it.

Main statements: `resident_total`, `incoming_total` and `destined_le_planningLoad`.
-/

namespace Datacenter

variable {α M : Type}

/-- The host that the VM runs on once its migration has landed. -/
def Vm.destination (vm : Vm α) : Option HostId := vm.migrationTarget.or vm.host

namespace Pool

variable [Scalar α] [AddCommMonoid M] {pool : Pool α}

/-- What all VMs take from the host that a function of their records gives. -/
def sumAt (pool : Pool α) (f : Resources α → M) (place : VmId → Vm α → Option HostId)
    (h : HostId) : M :=
  pool.vms.total fun v vm => if place v vm = some h then f vm.demand else 0

theorem sumAt_change (f : Resources α → M) {place place' : VmId → Vm α → Option HostId}
    {v : VmId} {vm : Vm α} (hv : pool.vms.get? v = some vm)
    (hother : ∀ w record, w ≠ v → place' w record = place w record) (h : HostId) :
    pool.sumAt f place' h + (if place v vm = some h then f vm.demand else 0)
      = pool.sumAt f place h + if place' v vm = some h then f vm.demand else 0 := by
  refine Table.total_change (f := fun v vm => if place v vm = some h then f vm.demand else 0)
    (g := fun v vm => if place' v vm = some h then f vm.demand else 0) hv fun w record hw _ => ?_
  rw [hother w record hw]

omit [Scalar α] in
theorem elim_ite_some (f : Resources α → M) (p : Prop) [Decidable p] (d : Resources α) :
    (if p then some d else none : Option (Resources α)).elim 0 f = if p then f d else 0 := by
  split
  · rfl
  · rfl

namespace Ownership

theorem resident_total (own : pool.Ownership) (f : Resources α → M) {h : HostId} {host : Host α}
    (hh : pool.hosts.get? h = some host) :
    host.resident.total (fun _ d => f d) = pool.sumAt f (fun _ vm => vm.host) h := by
  rw [sumAt]
  refine (Table.total_of_parts (fun _ vm => if vm.host = some h then some vm.demand else none)
    (fun v => ?_) _).trans (Table.total_congr fun v vm _ => elim_ite_some f _ _)
  rw [← residentShare_of_get? hh, own.resident, placedDemand]

theorem incoming_total (own : pool.Ownership) (f : Resources α → M) {h : HostId} {host : Host α}
    (hh : pool.hosts.get? h = some host) :
    host.incoming.total (fun _ d => f d) = pool.sumAt f (fun _ vm => vm.migrationTarget) h := by
  rw [sumAt]
  refine (Table.total_of_parts
    (fun _ vm => if vm.migrationTarget = some h then some vm.demand else none)
    (fun v => ?_) _).trans (Table.total_congr fun v vm _ => elim_ite_some f _ _)
  rw [← incomingShare_of_get? hh, own.incoming, movingDemand]

theorem outgoing_eq (own : pool.Ownership) (f : Resources α → M) {h : HostId} {host : Host α}
    (hh : pool.hosts.get? h = some host) :
    pool.outgoing f host
      = pool.sumAt f (fun _ vm => if vm.isMigrating then vm.host else none) h := by
  rw [outgoing, sumAt]
  refine (Table.total_of_parts (fun _ vm => if vm.host = some h then some vm.demand else none)
    (fun v => ?_) _).trans (Table.total_congr fun v vm hv => ?_)
  · rw [← residentShare_of_get? hh, own.resident, placedDemand]
  · rw [elim_ite_some, migrates_of_get? hv]
    cases vm.isMigrating with
    | true => rfl
    | false => simp

/-- A VM counts at its destination, and once more at its host while it migrates. -/
theorem destined_add_outgoing (own : pool.Ownership) (f : Resources α → M) {h : HostId}
    {host : Host α} (hh : pool.hosts.get? h = some host) :
    pool.sumAt f (fun _ vm => vm.destination) h + pool.outgoing f host
      = host.resident.total (fun _ d => f d) + host.incoming.total (fun _ d => f d) := by
  rw [own.resident_total f hh, own.incoming_total f hh, own.outgoing_eq f hh]
  rw [sumAt, sumAt, sumAt, sumAt, ← Table.total_add, ← Table.total_add]
  refine Table.total_congr fun v vm _ => ?_
  cases ht : vm.migrationTarget with
  | none => simp [Vm.destination, Vm.isMigrating, ht]
  | some t =>
    simp only [Vm.destination, Vm.isMigrating, ht, Option.some_or, Option.isSome_some, if_true]
    exact add_comm _ _

end Ownership

/-- A host has in its planning load at least what its residents and incoming VMs bring to it. -/
theorem Reachable.destined_le_planningLoad [PartialOrder M] [IsOrderedCancelAddMonoid M]
    {f : Resources α → M} (hf : Resources.IsAmount f) (hr : pool.Reachable) {h : HostId}
    {host : Host α} {load : Resources α} (hh : pool.hosts.get? h = some host)
    (hc : host.Covers f) (hl : pool.planningLoad h = .ok load) :
    pool.sumAt f (fun _ vm => vm.destination) h ≤ f load := by
  obtain ⟨allocated, ha, -⟩ := (hr.balanced h host hh).allocated
  have hload := le_planningLoad hf hh ha hl
  rw [hf.add ha] at hload
  have hsum := hr.ownership.destined_add_outgoing f hh
  have hentries := add_le_add hc.resident hc.incoming
  rw [← hsum] at hentries
  exact le_of_add_le_add_right (le_trans hentries hload)

end Pool

end Datacenter
