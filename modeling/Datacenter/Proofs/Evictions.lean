import Datacenter.Proofs.Admissions
import Datacenter.Proofs.Patches

/-!
# Evictions

Ending a migration drops the reservation of the VM wherever one is, and releasing a VM drops it from
all hosts: a host that does not hold the VM is left as it is. So an eviction, which does both to one
VM after another, does the same to each host, and no intermediate pool has to be looked at.

Main statements: `foldl_eq_sweep`, `cancelMigration_eq_sweep`, `release_eq_sweep` and
`evictHost_eq_apply`.
-/

namespace Datacenter

namespace Table

variable {κ β : Type} [Ord κ] [Std.TransOrd κ] [Std.LawfulEqOrd κ] [DecidableEq κ]

theorem erase_of_get?_eq_none {t : Table κ β} {k : κ} (h : t.get? k = none) : t.erase k = t := by
  ext1
  rw [entries_erase, List.filter_eq_self]
  rintro ⟨j, v⟩ he
  rw [mem_entries_iff] at he
  have hne : j ≠ k := by
    rintro rfl
    rw [h] at he
    cases he
  simpa using hne

omit [Std.TransOrd κ] [Std.LawfulEqOrd κ] [DecidableEq κ] in
theorem isEmpty_of_entries_eq_nil {t : Table κ β} (h : t.entries = []) : t.isEmpty = true := by
  rw [isEmpty, size_eq, h]
  rfl

end Table

/-! ### Hosts that VMs are dropped from -/

namespace Host

variable {α : Type} [Scalar α]

theorem cancel_of_get?_eq_none {host : Host α} {v : VmId} (h : host.incoming.get? v = none) :
    host.cancel v = host := by
  rw [cancel, h]

theorem release_of_get?_eq_none {host : Host α} {v : VmId} (h : host.resident.get? v = none) :
    host.release v = host := by
  rw [release, h]

theorem incoming_cancel (host : Host α) (v : VmId) :
    (host.cancel v).incoming = host.incoming.erase v := by
  cases hv : host.incoming.get? v with
  | none => rw [cancel_of_get?_eq_none hv, Table.erase_of_get?_eq_none hv]
  | some demand => rw [cancel_of_get? hv]

theorem resident_release (host : Host α) (v : VmId) :
    (host.release v).resident = host.resident.erase v := by
  cases hv : host.resident.get? v with
  | none => rw [release_of_get?_eq_none hv, Table.erase_of_get?_eq_none hv]
  | some demand => rw [release_of_get? hv]

theorem residentTotal_cancel (host : Host α) (v : VmId) :
    (host.cancel v).residentTotal = host.residentTotal := by
  rw [cancel]
  split <;> rfl

/-- The host without the VM, be it a resident or expected. -/
def drop (host : Host α) (v : VmId) : Host α := (host.cancel v).release v

theorem resident_drop (host : Host α) (v : VmId) :
    (host.drop v).resident = host.resident.erase v := by
  rw [drop, resident_release, resident_cancel]

theorem incoming_drop (host : Host α) (v : VmId) :
    (host.drop v).incoming = host.incoming.erase v := by
  rw [drop, incoming_release, incoming_cancel]

omit [Scalar α] in
theorem IsSame.trans {a b c : Host α} (hab : a.IsSame b) (hbc : b.IsSame c) : a.IsSame c :=
  ⟨hbc.1.trans hab.1, hbc.2.trans hab.2⟩

theorem isSame_drop (host : Host α) (v : VmId) : host.IsSame (host.drop v) :=
  (host.isSame_cancel v).trans ((host.cancel v).isSame_release v)

/-! ### One VM after the other -/

omit [Scalar α] in
/-- What each step erases a VM from is left without all of them. -/
theorem entries_foldl {f : Host α → VmId → Host α} {table : Host α → Table VmId (Resources α)}
    (h : ∀ host v, table (f host v) = (table host).erase v) (host : Host α) (vs : List VmId) :
    (table (vs.foldl f host)).entries = (table host).entries.filter fun e => e.1 ∉ vs := by
  induction vs generalizing host with
  | nil => simp
  | cons v vs ih =>
    rw [List.foldl_cons, ih, h, Table.entries_erase, List.filter_filter]
    refine List.filter_congr fun e _ => ?_
    simp [Bool.and_comm]

theorem resident_foldl_cancel (host : Host α) (vs : List VmId) :
    (vs.foldl cancel host).resident = host.resident :=
  List.foldlRecOn (motive := fun g => g.resident = host.resident) vs cancel rfl
    fun g hg v _ => (resident_cancel g v).trans hg

theorem residentTotal_foldl_cancel (host : Host α) (vs : List VmId) :
    (vs.foldl cancel host).residentTotal = host.residentTotal :=
  List.foldlRecOn (motive := fun g => g.residentTotal = host.residentTotal) vs cancel rfl
    fun g hg v _ => (residentTotal_cancel g v).trans hg

/-- A host that expects none of the VMs loses nothing. -/
theorem foldl_cancel_eq_self {host : Host α} {vs : List VmId}
    (h : ∀ v ∈ vs, host.incoming.get? v = none) : vs.foldl cancel host = host := by
  refine List.foldlRecOn (motive := fun g => g = host) vs cancel rfl fun g hg v hv => ?_
  rw [hg, cancel_of_get?_eq_none (h v hv)]

/-- A host that runs none of the VMs only loses reservations. -/
theorem foldl_drop {host : Host α} {vs : List VmId} (h : ∀ v ∈ vs, host.resident.get? v = none) :
    vs.foldl drop host = vs.foldl cancel host := by
  induction vs generalizing host with
  | nil => rfl
  | cons v vs ih =>
    have hdrop : host.drop v = host.cancel v := by
      refine release_of_get?_eq_none ?_
      rw [resident_cancel]
      exact h v List.mem_cons_self
    rw [List.foldl_cons, List.foldl_cons, hdrop]
    refine ih fun w hw => ?_
    rw [resident_cancel]
    exact h w (List.mem_cons_of_mem v hw)

end Host

namespace Vm

variable {α : Type} {vm : Vm α}

theorem staying_eq_self (hm : vm.migrationTarget = none) : vm.staying = vm := by
  rw [staying, ← hm]

theorem unplaced_eq_self (hp : vm.host = none) (hm : vm.migrationTarget = none) :
    vm.unplaced = vm := by
  obtain ⟨spec, id, host, target, waiting⟩ := vm
  cases hp
  cases hm
  rfl

end Vm

namespace Pool

variable {α : Type}

/-- Does the same to all hosts for each of the VMs in turn, and rewrites the records of the VMs. -/
def sweep (f : Host α → VmId → Host α) (g : Vm α → Vm α) (vs : List VmId) : Patch α :=
  ⟨fun _ host => vs.foldl f host, fun w vm => if w ∈ vs then g vm else vm⟩

section

variable {f : Host α → VmId → Host α} {g : Vm α → Vm α} {pool : Pool α} {v : VmId}

theorem sweep_nil (f : Host α → VmId → Host α) (g : Vm α → Vm α) (pool : Pool α) :
    (sweep f g []).apply pool = pool := by
  refine Eq.trans (Patch.apply_congr (fun _ _ _ => rfl) fun w vm _ => ?_) (Patch.apply_keep pool)
  simp [sweep]

/-- A patch that rewrites all hosts and one record is a sweep for that VM. -/
theorem eq_sweep {p : Patch α} (hosts : ∀ h host, pool.hosts.get? h = some host →
      p.host h host = f host v)
    (known : ∀ vm, pool.vms.get? v = some vm → p.vm v vm = g vm)
    (others : ∀ w vm, w ≠ v → p.vm w vm = vm) : p.apply pool = (sweep f g [v]).apply pool := by
  refine Patch.apply_congr (fun h host hh => hosts h host hh) fun w vm hw => ?_
  simp only [sweep, List.mem_singleton]
  split
  · rename_i heq
    subst heq
    exact known vm hw
  · rename_i hne
    exact others w vm hne

theorem self_eq_sweep (hosts : ∀ h host, pool.hosts.get? h = some host → f host v = host)
    (known : ∀ vm, pool.vms.get? v = some vm → g vm = vm) :
    pool = (sweep f g [v]).apply pool := by
  refine (Patch.apply_keep pool).symm.trans (eq_sweep (fun h host hh => ?_) (fun vm hv => ?_)
    fun _ _ _ => rfl)
  · exact (hosts h host hh).symm
  · exact (known vm hv).symm

end

variable [Scalar α] {pool : Pool α}

/-- Acting on VMs in turn is one patch, if acting on each of them is one. -/
theorem foldl_eq_sweep {act : Pool α → VmId → Pool α} {f : Host α → VmId → Host α}
    {g : Vm α → Vm α} (hg : ∀ vm, g (g vm) = g vm)
    (hown : ∀ pool v, pool.Ownership → (act pool v).Ownership)
    (hact : ∀ pool v, pool.Ownership → act pool v = (sweep f g [v]).apply pool)
    (own : pool.Ownership) (vs : List VmId) : vs.foldl act pool = (sweep f g vs).apply pool := by
  induction vs generalizing pool with
  | nil => exact (sweep_nil f g pool).symm
  | cons v vs ih =>
    rw [List.foldl_cons, ih (hown pool v own), hact pool v own, Patch.apply_apply]
    refine Patch.apply_congr (fun _ _ _ => rfl) fun w vm _ => ?_
    simp only [Patch.andThen, sweep, List.mem_cons, List.not_mem_nil, or_false]
    by_cases hw : w = v
    · by_cases hmem : w ∈ vs <;> simp [hw, hg]
    · simp [hw]

/-! ### Single VMs -/

namespace Ownership

variable (own : pool.Ownership) {v : VmId} {h : HostId} {host : Host α}
  (hh : pool.hosts.get? h = some host)

include own hh

theorem incoming_eq_none_of_forall
    (hv : ∀ vm, pool.vms.get? v = some vm → vm.migrationTarget ≠ some h) :
    host.incoming.get? v = none := by
  rw [← incomingShare_of_get? hh, own.incoming, Option.eq_none_iff_forall_ne_some]
  intro d hd
  obtain ⟨vm, hvm, ht, -⟩ := (movingDemand_eq_some_iff _ _ _ _).mp hd
  exact hv vm hvm ht

theorem resident_eq_none_of_forall (hv : ∀ vm, pool.vms.get? v = some vm → vm.host ≠ some h) :
    host.resident.get? v = none := by
  rw [← residentShare_of_get? hh, own.resident, Option.eq_none_iff_forall_ne_some]
  intro d hd
  obtain ⟨vm, hvm, hp, -⟩ := (placedDemand_eq_some_iff _ _ _ _).mp hd
  exact hv vm hvm hp

end Ownership

theorem unreserve_host (own : pool.Ownership) {v : VmId} {vm : Vm α}
    (hv : pool.vms.get? v = some vm) {h : HostId} {host : Host α}
    (hh : pool.hosts.get? h = some host) : (unreserve v vm).host h host = host.cancel v := by
  have hself : vm.migrationTarget ≠ some h → host.cancel v = host := fun hne =>
    Host.cancel_of_get?_eq_none (own.incoming_eq_none hv hh hne)
  cases hm : vm.migrationTarget with
  | none =>
    rw [hself (by simp [hm]), unreserve, hm]
    rfl
  | some t =>
    rw [unreserve, hm]
    by_cases ht : h = t
    · exact if_pos ht
    · rw [hself (by simp [hm, Ne.symm ht])]
      exact if_neg ht

theorem unreserve_vm (v : VmId) (vm : Vm α) (w : VmId) (record : Vm α) :
    (unreserve v vm).vm w record = record := by
  rw [unreserve]
  cases vm.migrationTarget <;> rfl

theorem cancelMigration_eq_sweep (own : pool.Ownership) (v : VmId) :
    (pool.cancelMigration v).toOption.getD pool
      = (sweep Host.cancel Vm.staying [v]).apply pool := by
  cases hc : pool.cancelMigration v with
  | ok pool' =>
    obtain ⟨vm, t, hv, hm, rfl⟩ := (cancelMigration_eq_ok_iff _ _ _).mp hc
    have hwritten : (pool.withoutReservation v vm).withVm v vm.staying
        = ((unreserve v vm).andThen (.onVm v fun _ => vm.staying)).apply pool := by
      rw [← Patch.apply_apply, ← withoutReservation_eq_apply,
        ← withVm_eq_apply (by rwa [vms_withoutReservation])]
    refine hwritten.trans (eq_sweep (fun h host hh => unreserve_host own hv hh) ?_ ?_)
    · intro record hrecord
      rw [hv, Option.some.injEq] at hrecord
      simp [Patch.andThen, Patch.onVm, hrecord]
    · intro w record hne
      simp [Patch.andThen, Patch.onVm, unreserve_vm, hne]
  | error reason =>
    have hstays : ∀ vm, pool.vms.get? v = some vm → vm.migrationTarget = none := by
      intro vm hv
      rw [Option.eq_none_iff_forall_ne_some]
      intro t hm
      rw [(cancelMigration_eq_ok_iff _ _ _).mpr ⟨vm, t, hv, hm, rfl⟩] at hc
      cases hc
    refine self_eq_sweep (fun h host hh => Host.cancel_of_get?_eq_none ?_) fun vm hv => ?_
    · exact own.incoming_eq_none_of_forall hh fun vm hv => by simp [hstays vm hv]
    · exact Vm.staying_eq_self (hstays vm hv)

theorem release_eq_sweep (own : pool.Ownership) (v : VmId) :
    ((pool.release v).map Prod.snd).getD pool
      = (sweep Host.drop Vm.unplaced [v]).apply pool := by
  cases hr : pool.release v with
  | some r =>
    obtain ⟨s, pool'⟩ := r
    obtain ⟨vm, hv, hp, rfl⟩ := release_eq_some hr
    have hwritten : ((pool.withoutReservation v vm).updateHost s (·.release v)).withVm v vm.unplaced
        = (((unreserve v vm).andThen (.onHost s (·.release v))).andThen
          (.onVm v fun _ => vm.unplaced)).apply pool := by
      rw [← Patch.apply_apply, ← Patch.apply_apply, ← withoutReservation_eq_apply,
        ← updateHost_eq_apply,
        ← withVm_eq_apply (by rwa [vms_updateHost, vms_withoutReservation])]
    refine hwritten.trans (eq_sweep (fun h host hh => ?_) ?_ ?_)
    · simp only [Patch.andThen, Patch.onHost, Patch.onVm, unreserve_host own hv hh, Host.drop]
      split
      · rfl
      · rename_i hne
        refine (Host.release_of_get?_eq_none ?_).symm
        rw [Host.resident_cancel]
        exact own.resident_eq_none hv hh (by simp [hp, Ne.symm hne])
    · intro record hrecord
      rw [hv, Option.some.injEq] at hrecord
      simp [Patch.andThen, Patch.onVm, hrecord]
    · intro w record hne
      simp [Patch.andThen, Patch.onHost, Patch.onVm, unreserve_vm, hne]
  | none =>
    have hnowhere : ∀ vm, pool.vms.get? v = some vm →
        vm.host = none ∧ vm.migrationTarget = none := by
      intro vm hv
      have hp : vm.host = none := by
        rw [Option.eq_none_iff_forall_ne_some]
        intro s hp
        obtain ⟨pool', hsome⟩ := own.release_eq_some hv hp
        rw [hr] at hsome
        cases hsome
      exact ⟨hp, own.migrationTarget_eq_none hv hp⟩
    refine self_eq_sweep (fun h host hh => ?_) fun vm hv => ?_
    · rw [Host.drop, Host.cancel_of_get?_eq_none, Host.release_of_get?_eq_none]
      · exact own.resident_eq_none_of_forall hh fun vm hv => by simp [hnowhere vm hv]
      · exact own.incoming_eq_none_of_forall hh fun vm hv => by simp [hnowhere vm hv]
    · obtain ⟨hp, hm⟩ := hnowhere vm hv
      exact Vm.unplaced_eq_self hp hm

/-! ### Evictions -/

/-- What the eviction of a host makes of each host. -/
def evicting (host other : Host α) : Host α :=
  host.resident.keys.foldl Host.drop (host.incoming.keys.foldl Host.cancel other)

/-- What the eviction of a host makes of the record of a VM. -/
def evicted (host : Host α) (v : VmId) (vm : Vm α) : Vm α :=
  if v ∈ host.resident.keys then vm.unplaced
  else if v ∈ host.incoming.keys then vm.staying else vm

/-- The eviction of a host, as a patch. -/
def eviction (host : Host α) : Patch α := ⟨fun _ => evicting host, evicted host⟩

theorem evictHost_eq_apply (own : pool.Ownership) {h : HostId} {host : Host α}
    (hh : pool.hosts.get? h = some host) :
    pool.evictHost h
      = (host.resident.keys ++ host.incoming.keys, (eviction host).apply pool) := by
  have hcancel := foldl_eq_sweep (g := Vm.staying) (fun _ => rfl)
    (fun pool v own => own.rearranged (cancelMigration_steps pool v))
    (fun pool v own => cancelMigration_eq_sweep own v) own host.incoming.keys
  have hown : ((sweep Host.cancel Vm.staying host.incoming.keys).apply pool).Ownership := by
    rw [← hcancel]
    exact cancelMigration_keeps (fun _ _ _ own hc => own.change hc) _ own
  have hrelease := foldl_eq_sweep (g := Vm.unplaced) (fun _ => rfl)
    (fun pool v own => own.rearranged (release_steps pool v))
    (fun pool v own => release_eq_sweep own v) hown host.resident.keys
  simp only [evictHost, hh, hcancel, hrelease, Patch.apply_apply, Prod.mk.injEq, true_and]
  refine Patch.apply_congr (fun _ _ _ => rfl) fun v vm _ => ?_
  simp only [Patch.andThen, sweep, eviction, evicted]
  split
  · split <;> rfl
  · rfl

theorem isSame_evicting (host other : Host α) : other.IsSame (evicting host other) := by
  have hcancelled : other.IsSame (host.incoming.keys.foldl Host.cancel other) :=
    List.foldlRecOn _ Host.cancel ⟨rfl, rfl⟩ fun g hg v _ => hg.trans (g.isSame_cancel v)
  exact List.foldlRecOn _ Host.drop hcancelled fun g hg v _ => hg.trans (g.isSame_drop v)

theorem isIdle_evicting (host : Host α) : (evicting host host).isIdle = true := by
  have hresident : (evicting host host).resident.entries = [] := by
    rw [evicting, Host.entries_foldl Host.resident_drop,
      Host.resident_foldl_cancel, List.filter_eq_nil_iff]
    intro e he
    simpa [Table.keys_eq] using ⟨e.2, he⟩
  have hincoming : (evicting host host).incoming.entries = [] := by
    rw [evicting, Host.entries_foldl Host.incoming_drop, Host.entries_foldl Host.incoming_cancel,
      List.filter_filter, List.filter_eq_nil_iff]
    intro e he
    have hmem : e.1 ∈ host.incoming.keys := by simpa [Table.keys_eq] using ⟨e.2, he⟩
    simp [hmem]
  rw [Host.isIdle, Table.isEmpty_of_entries_eq_nil hresident,
    Table.isEmpty_of_entries_eq_nil hincoming, Bool.and_self]

/-! ### Pools after an eviction -/

theorem Ownership.not_isResident (own : pool.Ownership) {v : VmId} {vm : Vm α}
    (hv : pool.vms.get? v = some vm) (hp : vm.host = none) (g : HostId) :
    ¬pool.IsResident g v := by
  intro hg
  obtain ⟨vm', hv', hp'⟩ := (own.isResident_iff g v).mp hg
  rw [hv, Option.some.injEq] at hv'
  rw [← hv', hp] at hp'
  cases hp'

theorem Ownership.not_isIncoming (own : pool.Ownership) {v : VmId} {vm : Vm α}
    (hv : pool.vms.get? v = some vm) (hm : vm.migrationTarget = none) (g : HostId) :
    ¬pool.IsIncoming g v := by
  intro hg
  obtain ⟨vm', hv', hm'⟩ := (own.isIncoming_iff g v).mp hg
  rw [hv, Option.some.injEq] at hv'
  rw [← hv', hm] at hm'
  cases hm'

section

variable {h : HostId} {host : Host α} (hr : pool.Reachable) (hh : pool.hosts.get? h = some host)

include hr hh

theorem nodup_held : (host.resident.keys ++ host.incoming.keys).Nodup := by
  refine List.nodup_append.mpr ⟨host.resident.nodup_keys, host.incoming.nodup_keys, ?_⟩
  rintro v hv w hw rfl
  obtain ⟨d, hd⟩ := (Table.mem_keys_iff _ _).mp hv
  obtain ⟨e, he⟩ := (Table.mem_keys_iff _ _).mp hw
  rcases (hr.balanced h host hh).apart v with hnone | hnone
  · rw [hd] at hnone
    cases hnone
  · rw [he] at hnone
    cases hnone

theorem residents_apart {g : HostId} {other : Host α} (hg : pool.hosts.get? g = some other)
    (hne : g ≠ h) : ∀ v ∈ host.resident.keys, other.resident.get? v = none := by
  intro v hv
  rw [Option.eq_none_iff_forall_ne_some]
  intro d hd
  have hv' : v ∈ other.resident.keys := (Table.mem_keys_iff _ _).mpr ⟨d, hd⟩
  obtain ⟨p, hp, hhost⟩ := (hr.ownership.mem_resident_iff hh v).mp hv
  obtain ⟨q, hq, hhost'⟩ := (hr.ownership.mem_resident_iff hg v).mp hv'
  rw [hp, Option.some.injEq] at hq
  rw [← hq, hhost, Option.some.injEq] at hhost'
  exact hne hhost'.symm

theorem incoming_apart {g : HostId} {other : Host α} (hg : pool.hosts.get? g = some other)
    (hne : g ≠ h) : ∀ v ∈ host.incoming.keys, other.incoming.get? v = none := by
  intro v hv
  rw [Option.eq_none_iff_forall_ne_some]
  intro d hd
  have hv' : v ∈ other.incoming.keys := (Table.mem_keys_iff _ _).mpr ⟨d, hd⟩
  obtain ⟨p, hp, htarget⟩ := (hr.ownership.mem_incoming_iff hh v).mp hv
  obtain ⟨q, hq, htarget'⟩ := (hr.ownership.mem_incoming_iff hg v).mp hv'
  rw [hp, Option.some.injEq] at hq
  rw [← hq, htarget, Option.some.injEq] at htarget'
  exact hne htarget'.symm

/-- The other hosts lose what they keep for the residents of the evicted host, and nothing else. -/
theorem evicting_other {g : HostId} {other : Host α} (hg : pool.hosts.get? g = some other)
    (hne : g ≠ h) : evicting host other = host.resident.keys.foldl Host.cancel other := by
  rw [evicting, Host.foldl_cancel_eq_self (incoming_apart hr hh hg hne),
    Host.foldl_drop (residents_apart hr hh hg hne)]

theorem eviction_reachable : ((eviction host).apply pool).Reachable := by
  have hafter : (pool.evictHost h).2.Reachable := hr.apply (.evictHost h) rfl
  rwa [evictHost_eq_apply hr.ownership hh] at hafter

theorem eviction_vacates : ∃ host' total, ((eviction host).apply pool).hosts.get? h = some host'
    ∧ host.IsSame host' ∧ host'.isIdle = true ∧ host'.allocated = .ok total
    ∧ ∀ k, total.stock k = 0 := by
  have hget : ((eviction host).apply pool).hosts.get? h = some (evicting host host) := by
    rw [Patch.get?_hosts_apply, hh]
    rfl
  have hidle := isIdle_evicting host
  have hb := (eviction_reachable hr hh).balanced h _ hget
  obtain ⟨total, htotal, -, hsum⟩ := hb.allocated
  refine ⟨_, total, hget, isSame_evicting host host, hidle, htotal, fun k => ?_⟩
  obtain ⟨hresident, hincoming⟩ := hb.stock_eq_zero_of_isIdle hidle k
  rw [hsum, hresident, hincoming]

theorem eviction_unplaces {v : VmId} (hv : v ∈ host.resident.keys) :
    ∃ vm, pool.vms.get? v = some vm ∧ vm.host = some h
      ∧ ((eviction host).apply pool).vms.get? v = some vm.unplaced := by
  obtain ⟨p, hp, hhost⟩ := (hr.ownership.mem_resident_iff hh v).mp hv
  obtain ⟨vm, hvm, hvh, -⟩ := (placement_eq_some_iff _ _ _).mp hp
  refine ⟨vm, hvm, hvh.trans hhost, ?_⟩
  rw [Patch.get?_vms_apply, hvm]
  exact congrArg some (if_pos hv)

theorem eviction_keeps_on_source {v : VmId} (hv : v ∈ host.incoming.keys) :
    ∃ vm s, pool.vms.get? v = some vm ∧ vm.host = some s ∧ s ≠ h
      ∧ ((eviction host).apply pool).vms.get? v = some vm.staying := by
  obtain ⟨p, hp, htarget⟩ := (hr.ownership.mem_incoming_iff hh v).mp hv
  obtain ⟨vm, hvm, -, hvt⟩ := (placement_eq_some_iff _ _ _).mp hp
  obtain ⟨s, hs, hne⟩ := hr.ownership.moving v vm h hvm (hvt.trans htarget)
  have hnot : v ∉ host.resident.keys := fun hmem =>
    (List.nodup_append.mp (nodup_held hr hh)).2.2 v hmem v hv rfl
  refine ⟨vm, s, hvm, hs, hne, ?_⟩
  rw [Patch.get?_vms_apply, hvm]
  exact congrArg some ((if_neg hnot).trans (if_pos hv))

theorem eviction_spares_others {g : HostId} {other : Host α}
    (hg : pool.hosts.get? g = some other) (hne : g ≠ h) :
    ∃ other', ((eviction host).apply pool).hosts.get? g = some other' ∧ other.IsSame other'
      ∧ other'.resident = other.resident ∧ other'.residentTotal = other.residentTotal
      ∧ other'.incoming.entries
        = other.incoming.entries.filter (fun e => e.1 ∉ host.resident.keys)
      ∧ ((∀ v ∈ host.resident.keys, other.incoming.get? v = none) → other' = other) := by
  have hget : ((eviction host).apply pool).hosts.get? g = some (evicting host other) := by
    rw [Patch.get?_hosts_apply, hg]
    rfl
  refine ⟨_, hget, isSame_evicting host other, ?_⟩
  rw [evicting_other hr hh hg hne]
  exact ⟨Host.resident_foldl_cancel .., Host.residentTotal_foldl_cancel ..,
    Host.entries_foldl Host.incoming_cancel .., Host.foldl_cancel_eq_self⟩

end

theorem eviction_keeps_records {host : Host α} {v : VmId}
    (hv : v ∉ host.resident.keys ++ host.incoming.keys) (pool : Pool α) :
    ((eviction host).apply pool).vms.get? v = pool.vms.get? v := by
  rw [List.mem_append, not_or] at hv
  have hkept : ∀ vm, (eviction host).vm v vm = vm := fun vm =>
    (if_neg hv.1).trans (if_neg hv.2)
  rw [Patch.get?_vms_apply, Option.map_congr fun vm _ => hkept vm, Option.map_id']

/-- The eviction of a host gives its residents in order, then the VMs that it expects, each of them
once. It leaves the host idle, with nothing allocated. Its residents are unplaced, and no host
expects them any more. The VMs that it expected stay where they run. Other records are as they were,
and other hosts only lose what they kept for residents of the host. -/
theorem eviction_is_confined {h : HostId} {host : Host α} (hr : pool.Reachable)
    (hh : pool.hosts.get? h = some host) :
    ∃ pool', pool.evictHost h = (host.resident.keys ++ host.incoming.keys, pool')
      ∧ (host.resident.keys ++ host.incoming.keys).Nodup
      ∧ (∃ host' total, pool'.hosts.get? h = some host' ∧ host.IsSame host'
        ∧ host'.isIdle = true ∧ host'.allocated = .ok total ∧ ∀ k, total.stock k = 0)
      ∧ (∀ v ∈ host.resident.keys, ∃ vm, pool.vms.get? v = some vm ∧ vm.host = some h
        ∧ pool'.vms.get? v = some vm.unplaced
        ∧ ∀ g, ¬pool'.IsResident g v ∧ ¬pool'.IsIncoming g v)
      ∧ (∀ v ∈ host.incoming.keys, ∃ vm s, pool.vms.get? v = some vm ∧ vm.host = some s ∧ s ≠ h
        ∧ pool'.vms.get? v = some vm.staying ∧ pool'.IsResident s v ∧ ∀ g, ¬pool'.IsIncoming g v)
      ∧ (∀ v, v ∉ host.resident.keys ++ host.incoming.keys →
        pool'.vms.get? v = pool.vms.get? v)
      ∧ (∀ g other, g ≠ h → pool.hosts.get? g = some other →
        ∃ other', pool'.hosts.get? g = some other' ∧ other.IsSame other'
          ∧ other'.resident = other.resident ∧ other'.residentTotal = other.residentTotal
          ∧ other'.incoming.entries
            = other.incoming.entries.filter (fun e => e.1 ∉ host.resident.keys)
          ∧ ((∀ v ∈ host.resident.keys, other.incoming.get? v = none) → other' = other))
      ∧ pool'.hostIds = pool.hostIds ∧ pool'.vmIds = pool.vmIds
      ∧ pool'.nextHost = pool.nextHost ∧ pool'.nextVm = pool.nextVm := by
  have own' := (eviction_reachable hr hh).ownership
  refine ⟨(eviction host).apply pool, evictHost_eq_apply hr.ownership hh, nodup_held hr hh,
    eviction_vacates hr hh, fun v hv => ?_, fun v hv => ?_,
    fun v hv => eviction_keeps_records hv pool,
    fun g other hne hg => eviction_spares_others hr hh hg hne, Patch.hostIds_apply _ _,
    Patch.vmIds_apply _ _, rfl, rfl⟩
  · obtain ⟨vm, hvm, hp, hvm'⟩ := eviction_unplaces hr hh hv
    exact ⟨vm, hvm, hp, hvm',
      fun g => ⟨own'.not_isResident hvm' rfl g, own'.not_isIncoming hvm' rfl g⟩⟩
  · obtain ⟨vm, s, hvm, hs, hne, hvm'⟩ := eviction_keeps_on_source hr hh hv
    exact ⟨vm, s, hvm, hs, hne, hvm', (own'.isResident_iff s v).mpr ⟨_, hvm', hs⟩,
      own'.not_isIncoming hvm' rfl⟩

/-- The first host runs two VMs, of which one moves to the second host, and a VM of the third host
moves to it. -/
def entangledRun : List (Op Float) :=
  let host : HostSpec Float := ⟨"host", 4, 1000, 8192, 1000, 100000, .linear 200 0.5⟩
  let vm : VmSpec Float := ⟨"tenant", 1, 500, 1024, 100, 1000⟩
  [.addHost host, .addHost host, .addHost host, .addVm vm, .addVm vm, .addVm vm,
    .allocate 1 0, .allocate 0 0, .allocate 2 2, .startMigration 0 1, .startMigration 2 0]

theorem entangledRun_evicted : ∃ pool pool' : Pool Float, empty.run entangledRun = .ok pool
    ∧ pool.evictHost 0 = ([1, 0, 2], pool') ∧ pool.IsIncoming 1 0
    ∧ (∀ g, ¬pool'.IsResident g 0 ∧ ¬pool'.IsIncoming g 0) ∧ pool'.IsResident 2 2
    ∧ ∀ g, ¬pool'.IsIncoming g 2 := by
  have hrun : (empty.run entangledRun).toOption.any (fun pool =>
      ((pool.hosts.get? 0).any fun host => host.resident.keys == [1, 0]
        && host.incoming.keys == [2])
      && ((pool.vms.get? 0).any fun vm => vm.migrationTarget == some 1)
      && (pool.vms.get? 2).any fun vm => vm.host == some 2) = true := by
    decide +kernel
  obtain ⟨pool, hp, htest⟩ := Checked.eq_ok_of_any hrun
  simp only [Bool.and_eq_true, Option.any_eq_true, beq_iff_eq] at htest
  obtain ⟨⟨⟨host, hh, hresident, hincoming⟩, vm0, hv0, ht0⟩, vm2, hv2, hs2⟩ := htest
  have hr := reachable_of_run hp
  obtain ⟨pool', hevict, -, -, hunplaced, hstays, -⟩ := eviction_is_confined hr hh
  rw [hresident, hincoming] at hevict
  obtain ⟨vm, hvm, -, -, hgone⟩ := hunplaced 0 (by simp [hresident])
  obtain ⟨vm', s, hvm', hs, -, -, hruns, hleft⟩ := hstays 2 (by simp [hincoming])
  rw [hv2, Option.some.injEq] at hvm'
  rw [← hvm', hs2, Option.some.injEq] at hs
  have htarget := (hr.ownership.isIncoming_iff 1 0).mpr ⟨vm0, hv0, ht0⟩
  exact ⟨pool, pool', hp, hevict, htarget, hgone, hs ▸ hruns, hleft⟩

end Pool

end Datacenter
