import Datacenter.Proofs.PoolSteps
import Datacenter.Proofs.Totals

/-!
# What hosts hold and what records say

Where a VM runs and where it moves is told twice: by the entries of hosts, and by its record. The
share of a VM on a host is its entry there, and its demand on a host is what the record says that it
takes there.

Main statements: how shares change when one host of a pool does, and `SameHosts`.
-/

namespace Datacenter.Pool

variable {α : Type}

/-! ### The two sides -/

/-- What a host has given to a resident VM. -/
def residentShare (pool : Pool α) (h : HostId) (v : VmId) : Option (Resources α) :=
  (pool.hosts.get? h).bind fun host => host.resident.get? v

/-- What a host keeps for an incoming VM. -/
def incomingShare (pool : Pool α) (h : HostId) (v : VmId) : Option (Resources α) :=
  (pool.hosts.get? h).bind fun host => host.incoming.get? v

variable [Scalar α]

/-- What a VM takes from a host if its record says that it runs there. -/
def placedDemand (pool : Pool α) (h : HostId) (v : VmId) : Option (Resources α) :=
  (pool.vms.get? v).bind fun vm => if vm.host = some h then some vm.demand else none

/-- What a VM takes from a host if its record says that it moves there. -/
def movingDemand (pool : Pool α) (h : HostId) (v : VmId) : Option (Resources α) :=
  (pool.vms.get? v).bind fun vm => if vm.migrationTarget = some h then some vm.demand else none

omit [Scalar α] in
/-- The VM is a resident of the host. -/
def IsResident (pool : Pool α) (h : HostId) (v : VmId) : Prop :=
  ∃ host, pool.hosts.get? h = some host ∧ host.resident.contains v = true

omit [Scalar α] in
/-- The host expects the VM. -/
def IsIncoming (pool : Pool α) (h : HostId) (v : VmId) : Prop :=
  ∃ host, pool.hosts.get? h = some host ∧ host.incoming.contains v = true

omit [Scalar α] in
theorem isResident_iff (pool : Pool α) (h : HostId) (v : VmId) :
    pool.IsResident h v ↔ ∃ d, pool.residentShare h v = some d := by
  simp only [IsResident, residentShare, Table.contains, Option.isSome_iff_exists,
    Option.bind_eq_some_iff]
  constructor
  · rintro ⟨host, hh, d, hd⟩
    exact ⟨d, host, hh, hd⟩
  · rintro ⟨d, host, hh, hd⟩
    exact ⟨host, hh, d, hd⟩

omit [Scalar α] in
theorem isIncoming_iff (pool : Pool α) (h : HostId) (v : VmId) :
    pool.IsIncoming h v ↔ ∃ d, pool.incomingShare h v = some d := by
  simp only [IsIncoming, incomingShare, Table.contains, Option.isSome_iff_exists,
    Option.bind_eq_some_iff]
  constructor
  · rintro ⟨host, hh, d, hd⟩
    exact ⟨d, host, hh, hd⟩
  · rintro ⟨d, host, hh, hd⟩
    exact ⟨host, hh, d, hd⟩

theorem placedDemand_eq_some_iff (pool : Pool α) (h : HostId) (v : VmId) (d : Resources α) :
    pool.placedDemand h v = some d ↔
      ∃ vm, pool.vms.get? v = some vm ∧ vm.host = some h ∧ vm.demand = d := by
  simp only [placedDemand, Option.bind_eq_some_iff, Option.ite_none_right_eq_some,
    Option.some.injEq]

theorem movingDemand_eq_some_iff (pool : Pool α) (h : HostId) (v : VmId) (d : Resources α) :
    pool.movingDemand h v = some d ↔
      ∃ vm, pool.vms.get? v = some vm ∧ vm.migrationTarget = some h ∧ vm.demand = d := by
  simp only [movingDemand, Option.bind_eq_some_iff, Option.ite_none_right_eq_some,
    Option.some.injEq]

/-! ### Shares after a change of the pool -/

omit [Scalar α] in
theorem residentShare_withHost (pool : Pool α) (g : HostId) (host : Host α) (h : HostId)
    (w : VmId) :
    (pool.withHost g host).residentShare h w
      = if h = g then host.resident.get? w else pool.residentShare h w := by
  rw [residentShare, hosts_withHost, Table.get?_insert]
  split <;> rfl

omit [Scalar α] in
theorem incomingShare_withHost (pool : Pool α) (g : HostId) (host : Host α) (h : HostId)
    (w : VmId) :
    (pool.withHost g host).incomingShare h w
      = if h = g then host.incoming.get? w else pool.incomingShare h w := by
  rw [incomingShare, hosts_withHost, Table.get?_insert]
  split <;> rfl

omit [Scalar α] in
theorem residentShare_withVm (pool : Pool α) (v : VmId) (vm : Vm α) :
    (pool.withVm v vm).residentShare = pool.residentShare := rfl

omit [Scalar α] in
theorem incomingShare_withVm (pool : Pool α) (v : VmId) (vm : Vm α) :
    (pool.withVm v vm).incomingShare = pool.incomingShare := rfl

omit [Scalar α] in
theorem residentShare_of_get? {pool : Pool α} {h : HostId} {host : Host α}
    (hh : pool.hosts.get? h = some host) (w : VmId) :
    pool.residentShare h w = host.resident.get? w := by
  rw [residentShare, hh, Option.bind_some]

omit [Scalar α] in
theorem incomingShare_of_get? {pool : Pool α} {h : HostId} {host : Host α}
    (hh : pool.hosts.get? h = some host) (w : VmId) :
    pool.incomingShare h w = host.incoming.get? w := by
  rw [incomingShare, hh, Option.bind_some]

theorem residentShare_updateHost_release (pool : Pool α) (g : HostId) (v : VmId) (h : HostId)
    (w : VmId) :
    (pool.updateHost g (·.release v)).residentShare h w
      = if h = g ∧ w = v then none else pool.residentShare h w := by
  cases hg : pool.hosts.get? g with
  | none =>
    simp only [updateHost, hg]
    split
    · rename_i hw
      rw [hw.1, residentShare, hg, Option.bind_none]
    · rfl
  | some host =>
    rw [updateHost_of_get? hg, residentShare_withHost]
    by_cases hh : h = g
    · rw [if_pos hh, Host.get?_resident_release, hh, residentShare_of_get? hg]
      simp
    · simp [hh]

theorem incomingShare_updateHost_release (pool : Pool α) (g : HostId) (v : VmId) :
    (pool.updateHost g (·.release v)).incomingShare = pool.incomingShare := by
  funext h w
  cases hg : pool.hosts.get? g with
  | none => rw [updateHost, hg]
  | some host =>
    rw [updateHost_of_get? hg, incomingShare_withHost, Host.incoming_release]
    split
    · rename_i hh
      rw [hh, incomingShare_of_get? hg]
    · rfl

theorem residentShare_withoutReservation (pool : Pool α) (v : VmId) (vm : Vm α) :
    (pool.withoutReservation v vm).residentShare = pool.residentShare := by
  funext h w
  rw [withoutReservation]
  cases ht : vm.migrationTarget with
  | none => rfl
  | some t =>
    cases hg : pool.hosts.get? t with
    | none => simp only [updateHost, hg]
    | some target =>
      simp only [updateHost_of_get? hg, residentShare_withHost, Host.resident_cancel]
      split
      · rename_i hh
        rw [hh, residentShare_of_get? hg]
      · rfl

theorem incomingShare_withoutReservation (pool : Pool α) (v : VmId) (vm : Vm α) (h : HostId)
    (w : VmId) :
    (pool.withoutReservation v vm).incomingShare h w
      = if vm.migrationTarget = some h ∧ w = v then none else pool.incomingShare h w := by
  rw [withoutReservation]
  cases ht : vm.migrationTarget with
  | none => simp
  | some t =>
    cases hg : pool.hosts.get? t with
    | none =>
      simp only [updateHost, hg, Option.some.injEq]
      split
      · rename_i hw
        rw [← hw.1, incomingShare, hg, Option.bind_none]
      · rfl
    | some target =>
      simp only [updateHost_of_get? hg, incomingShare_withHost, Option.some.injEq]
      by_cases hh : h = t
      · rw [if_pos hh, Host.get?_incoming_cancel, hh, incomingShare_of_get? hg]
        simp
      · simp [hh, Ne.symm hh]

/-! ### The hosts of a pool -/

/-- Both pools have the same hosts, whatever these hold. -/
def SameHosts (pool pool' : Pool α) : Prop :=
  ∀ h, (pool'.hosts.get? h).map (fun host => (host.id, host.toHostSpec))
    = (pool.hosts.get? h).map fun host => (host.id, host.toHostSpec)

namespace SameHosts

omit [Scalar α]

theorem refl (pool : Pool α) : pool.SameHosts pool := fun _ => rfl

theorem trans {a b c : Pool α} (hab : a.SameHosts b) (hbc : b.SameHosts c) : a.SameHosts c :=
  fun h => (hbc h).trans (hab h)

theorem withHost {pool : Pool α} {g : HostId} {host host' : Host α}
    (hg : pool.hosts.get? g = some host) (hs : host.IsSame host') :
    pool.SameHosts (pool.withHost g host') := by
  intro h
  rw [hosts_withHost, Table.get?_insert]
  split
  · rename_i hh
    rw [hh, hg, Option.map_some, Option.map_some, hs.1, hs.2]
  · rfl

theorem updateHost (pool : Pool α) (g : HostId) {f : Host α → Host α}
    (hf : ∀ host : Host α, host.IsSame (f host)) : pool.SameHosts (pool.updateHost g f) := by
  cases hg : pool.hosts.get? g with
  | none =>
    simp only [Pool.updateHost, hg]
    exact refl pool
  | some host =>
    rw [updateHost_of_get? hg]
    exact withHost hg (hf host)

theorem get? {pool pool' : Pool α} (hs : pool.SameHosts pool') {h : HostId} {host' : Host α}
    (hh : pool'.hosts.get? h = some host') :
    ∃ host, pool.hosts.get? h = some host ∧ host.IsSame host' := by
  have heq := hs h
  rw [hh, Option.map_some, eq_comm, Option.map_eq_some_iff] at heq
  obtain ⟨host, hhost, hpair⟩ := heq
  rw [Prod.mk.injEq] at hpair
  exact ⟨host, hhost, hpair.1.symm, hpair.2.symm⟩

theorem symm {pool pool' : Pool α} (hs : pool.SameHosts pool') : pool'.SameHosts pool :=
  fun h => (hs h).symm

end SameHosts

theorem sameHosts_withoutReservation (pool : Pool α) (v : VmId) (vm : Vm α) :
    pool.SameHosts (pool.withoutReservation v vm) := by
  rw [withoutReservation]
  split
  · exact .refl pool
  · exact .updateHost pool _ fun host => host.isSame_cancel v

end Datacenter.Pool
