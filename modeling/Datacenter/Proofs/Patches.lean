import Datacenter.Proofs.PoolSteps
import Datacenter.Proofs.Totals

/-!
# Patches

A patch rewrites hosts and VMs of a pool where they are, and adds or removes none. It touches what
it does not leave as it is. Patches that touch different hosts and VMs commute, and what operations
on VMs write is a patch.

Main statements: `Patch.apply_apply`, `Patch.apply_comm` and `withHost_withVm_eq_apply`.
-/

namespace Datacenter

/-! ### Rewritten tables -/

namespace Table

variable {κ β : Type} [Ord κ]

theorem map_map (f g : κ → β → β) (t : Table κ β) :
    (t.map f).map g = t.map fun k v => g k (f k v) := by
  ext1
  rw [entries_map, entries_map, entries_map, List.map_map]
  rfl

theorem keys_map (f : κ → β → β) (t : Table κ β) : (t.map f).keys = t.keys := by
  rw [keys_eq, entries_map, keys_eq, List.map_map]
  rfl

theorem map_same (t : Table κ β) : (t.map fun _ v => v) = t := by
  ext1
  rw [entries_map, List.map_id']

variable [DecidableEq κ]

theorem map_congr {f g : κ → β → β} {t : Table κ β}
    (h : ∀ k v, t.get? k = some v → f k v = g k v) : t.map f = t.map g := by
  ext1
  rw [entries_map, entries_map]
  refine List.map_congr_left fun e he => ?_
  rw [h e.1 e.2 ((mem_entries_iff t e.1 e.2).mp he)]

theorem map_of_fixed {f : κ → β → β} {t : Table κ β}
    (h : ∀ k v, t.get? k = some v → f k v = v) : t.map f = t := by
  rw [map_congr (g := fun _ v => v) h, map_same]

variable [Std.TransOrd κ] [Std.LawfulEqOrd κ]

/-- Writing to a key that is present rewrites its value. -/
theorem insert_eq_map {t : Table κ β} {k : κ} {u : β} (h : t.get? k = some u) (v : β) :
    t.insert k v = t.map fun j w => if j = k then v else w := by
  have hk : k ∈ t.entries.map Prod.fst := by
    rw [← keys_eq, mem_keys_iff]
    exact ⟨u, h⟩
  ext1
  rw [entries_insert, entries_map, Entries.put_of_mem (keys_eq t ▸ t.nodup_keys) hk]
  refine List.map_congr_left fun e _ => ?_
  split
  · rename_i he
    rw [he]
  · rfl

end Table

variable {α : Type}

/-- How each host and each VM is rewritten. -/
structure Patch (α : Type) where
  host : HostId → Host α → Host α
  vm : VmId → Vm α → Vm α

namespace Patch

/-! ### Patches of pools -/

def apply (p : Patch α) (pool : Pool α) : Pool α :=
  { pool with hosts := pool.hosts.map p.host, vms := pool.vms.map p.vm }

def keep : Patch α := ⟨fun _ host => host, fun _ vm => vm⟩

/-- The second patch after the first one. -/
def andThen (p q : Patch α) : Patch α :=
  ⟨fun h host => q.host h (p.host h host), fun v vm => q.vm v (p.vm v vm)⟩

def onHost (h : HostId) (f : Host α → Host α) : Patch α :=
  ⟨fun g host => if g = h then f host else host, fun _ vm => vm⟩

def onVm (v : VmId) (f : Vm α → Vm α) : Patch α :=
  ⟨fun _ host => host, fun w vm => if w = v then f vm else vm⟩

@[simp] theorem get?_hosts_apply (p : Patch α) (pool : Pool α) (h : HostId) :
    (p.apply pool).hosts.get? h = (pool.hosts.get? h).map (p.host h) := Table.get?_map ..

@[simp] theorem get?_vms_apply (p : Patch α) (pool : Pool α) (v : VmId) :
    (p.apply pool).vms.get? v = (pool.vms.get? v).map (p.vm v) := Table.get?_map ..

@[simp] theorem hostIds_apply (p : Patch α) (pool : Pool α) :
    (p.apply pool).hostIds = pool.hostIds := Table.keys_map ..

@[simp] theorem vmIds_apply (p : Patch α) (pool : Pool α) :
    (p.apply pool).vmIds = pool.vmIds := Table.keys_map ..

theorem apply_keep (pool : Pool α) : keep.apply pool = pool := by
  simp only [apply, keep, Table.map_same]

theorem apply_onHost (h : HostId) (f : Host α → Host α) (pool : Pool α) :
    (onHost h f).apply pool
      = { pool with hosts := pool.hosts.map fun g host => if g = h then f host else host } := by
  simp only [apply, onHost, Table.map_same]

theorem apply_onVm (v : VmId) (f : Vm α → Vm α) (pool : Pool α) :
    (onVm v f).apply pool
      = { pool with vms := pool.vms.map fun w vm => if w = v then f vm else vm } := by
  simp only [apply, onVm, Table.map_same]

theorem apply_apply (p q : Patch α) (pool : Pool α) :
    q.apply (p.apply pool) = (p.andThen q).apply pool := by
  simp only [apply, Table.map_map, andThen]

theorem apply_congr {p q : Patch α} {pool : Pool α}
    (hosts : ∀ h host, pool.hosts.get? h = some host → p.host h host = q.host h host)
    (vms : ∀ v vm, pool.vms.get? v = some vm → p.vm v vm = q.vm v vm) :
    p.apply pool = q.apply pool := by
  rw [apply, apply, Table.map_congr hosts, Table.map_congr vms]

/-! ### What a patch touches -/

/-- The patch rewrites at most the VM and the hosts. -/
structure Within (p : Patch α) (v : VmId) (hosts : HostId → Prop) : Prop where
  host : ∀ h, ¬hosts h → ∀ host, p.host h host = host
  vm : ∀ w, w ≠ v → ∀ vm, p.vm w vm = vm

section

variable {p q : Patch α} {v w : VmId} {hosts hosts' : HostId → Prop}

theorem within_keep : (keep : Patch α).Within v hosts := ⟨fun _ _ _ => rfl, fun _ _ _ => rfl⟩

theorem within_onHost {h : HostId} (hh : hosts h) (f : Host α → Host α) :
    (onHost h f).Within v hosts :=
  ⟨fun g hg _ => if_neg fun heq : g = h => hg (heq ▸ hh), fun _ _ _ => rfl⟩

theorem within_onVm (f : Vm α → Vm α) : (onVm v f).Within v hosts :=
  ⟨fun _ _ _ => rfl, fun _ hw _ => if_neg hw⟩

theorem Within.andThen (hp : p.Within v hosts) (hq : q.Within v hosts) :
    (p.andThen q).Within v hosts where
  host h hh host := by simp only [Patch.andThen, hp.host h hh, hq.host h hh]
  vm w hw vm := by simp only [Patch.andThen, hp.vm w hw, hq.vm w hw]

theorem Within.get?_hosts (hp : p.Within v hosts) {h : HostId} (hh : ¬hosts h) (pool : Pool α) :
    (p.apply pool).hosts.get? h = pool.hosts.get? h := by
  rw [get?_hosts_apply, Option.map_congr fun host _ => hp.host h hh host, Option.map_id']

theorem Within.get?_vms (hp : p.Within v hosts) (hw : w ≠ v) (pool : Pool α) :
    (p.apply pool).vms.get? w = pool.vms.get? w := by
  rw [get?_vms_apply, Option.map_congr fun vm _ => hp.vm w hw vm, Option.map_id']

/-- Patches of different VMs and disjoint hosts commute. -/
theorem apply_comm (hp : p.Within v hosts) (hq : q.Within w hosts') (hne : v ≠ w)
    (hdisjoint : ∀ h, ¬(hosts h ∧ hosts' h)) (pool : Pool α) :
    q.apply (p.apply pool) = p.apply (q.apply pool) := by
  rw [apply_apply, apply_apply]
  congr 1
  simp only [Patch.andThen, Patch.mk.injEq]
  constructor
  · funext h host
    by_cases hh : hosts h
    · have hh' : ¬hosts' h := fun h' => hdisjoint h ⟨hh, h'⟩
      rw [hq.host h hh', hq.host h hh']
    · rw [hp.host h hh, hp.host h hh]
  · funext x vm
    by_cases hx : x = v
    · rw [hq.vm x (hx ▸ hne), hq.vm x (hx ▸ hne)]
    · rw [hp.vm x hx, hp.vm x hx]

end

end Patch

/-! ### Writes of a pool -/

namespace Pool

variable {pool : Pool α} {v : VmId} {vm : Vm α}

theorem withHost_eq_apply {h : HostId} {former : Host α} (hh : pool.hosts.get? h = some former)
    (host : Host α) : pool.withHost h host = (Patch.onHost h fun _ => host).apply pool := by
  rw [withHost, Table.insert_eq_map hh, Patch.apply_onHost]

theorem withVm_eq_apply (hv : pool.vms.get? v = some vm) (vm' : Vm α) :
    pool.withVm v vm' = (Patch.onVm v fun _ => vm').apply pool := by
  rw [withVm, Table.insert_eq_map hv, Patch.apply_onVm]

theorem withHost_withVm_eq_apply {h : HostId} {former : Host α}
    (hh : pool.hosts.get? h = some former) (hv : pool.vms.get? v = some vm) (host : Host α)
    (vm' : Vm α) :
    (pool.withHost h host).withVm v vm'
      = ((Patch.onHost h fun _ => host).andThen (.onVm v fun _ => vm')).apply pool := by
  have hv' : (pool.withHost h host).vms.get? v = some vm := hv
  rw [← Patch.apply_apply, ← withHost_eq_apply hh, withVm_eq_apply hv']

theorem updateHost_eq_apply (pool : Pool α) (h : HostId) (f : Host α → Host α) :
    pool.updateHost h f = (Patch.onHost h f).apply pool := by
  rw [Patch.apply_onHost, updateHost]
  cases hh : pool.hosts.get? h with
  | none =>
    rw [Table.map_of_fixed]
    intro g host hg
    exact if_neg fun heq => by simp [heq, hh] at hg
  | some host =>
    simp only [withHost, Table.insert_eq_map hh, Pool.mk.injEq, and_self, and_true]
    refine Table.map_congr fun g host' hg => ?_
    split
    · rename_i heq
      rw [heq, hh, Option.some.injEq] at hg
      rw [hg]
    · rfl

/-- Drops the reservation of a VM with this record. -/
def unreserve [Scalar α] (v : VmId) (vm : Vm α) : Patch α :=
  match vm.migrationTarget with
  | none => .keep
  | some t => .onHost t (·.cancel v)

theorem within_unreserve [Scalar α] {hosts : HostId → Prop}
    (h : ∀ t, vm.migrationTarget = some t → hosts t) : (unreserve v vm).Within v hosts := by
  rw [unreserve]
  split
  · exact Patch.within_keep
  · rename_i t ht
    exact Patch.within_onHost (h t ht) _

theorem withoutReservation_eq_apply [Scalar α] (pool : Pool α) (v : VmId) (vm : Vm α) :
    pool.withoutReservation v vm = (unreserve v vm).apply pool := by
  rw [withoutReservation, unreserve]
  cases vm.migrationTarget with
  | none => exact (Patch.apply_keep pool).symm
  | some t => exact updateHost_eq_apply ..

end Pool

end Datacenter
