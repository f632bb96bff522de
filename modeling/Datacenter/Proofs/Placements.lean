import Datacenter.Proofs.Capacity
import Datacenter.Proofs.Rearrangements

/-!
# Placements

The placement of a VM is what its record says about where it runs and where it moves. Each operation
changes the placement of one VM, and an eviction those of the VMs around the host. Pools of the same
hosts and VMs that place these alike hold the same on their hosts.

Main statements: `allocate_placement` to `cancelMigration_placement`, `foldl_without`,
`evictHost_placement` and `Arranged.hosts_alike`.
-/

namespace Datacenter

/-- Where a VM runs and where it moves. -/
structure Placement where
  host : Option HostId
  target : Option HostId
  deriving DecidableEq

namespace Placement

/-- The VM runs nowhere. -/
def unplaced : Placement := ⟨none, none⟩

/-- The VM stays where it runs. -/
def staying (p : Placement) : Placement := ⟨p.host, none⟩

/-- What an eviction of the host leaves of a placement. -/
def without (p : Placement) (h : HostId) : Placement :=
  if p.host = some h then unplaced else if p.target = some h then p.staying else p

/-- The VM runs on the host or moves to it. -/
def IsAround (p : Placement) (h : HostId) : Prop := p.host = some h ∨ p.target = some h

theorem without_of_not_isAround {p : Placement} {h : HostId} (hp : ¬p.IsAround h) :
    p.without h = p := by
  rw [IsAround, not_or] at hp
  rw [without, if_neg hp.1, if_neg hp.2]

theorem target_of_without {p : Placement} {h t : HostId} (ht : (p.without h).target = some t) :
    p.target = some t := by
  rw [without] at ht
  split at ht
  · cases ht
  · split at ht
    · cases ht
    · exact ht

theorem foldl_without_unplaced (hosts : List HostId) :
    hosts.foldl without unplaced = unplaced := by
  induction hosts with
  | nil => rfl
  | cons h hosts ih => simpa [without, unplaced] using ih

/-- Evictions take a VM off its host, or end its migration if only its target is evicted. -/
theorem foldl_without (p : Placement) (hosts : List HostId) :
    hosts.foldl without p
      = if ∃ h ∈ hosts, p.host = some h then unplaced
        else if ∃ h ∈ hosts, p.target = some h then p.staying else p := by
  induction hosts generalizing p with
  | nil => simp
  | cons h hosts ih =>
    rw [List.foldl_cons]
    by_cases hh : p.host = some h
    · rw [without, if_pos hh, foldl_without_unplaced, if_pos ⟨h, List.mem_cons_self, hh⟩]
    · by_cases ht : p.target = some h
      · rw [without, if_neg hh, if_pos ht, ih]
        simp [staying, hh, ht]
      · rw [without, if_neg hh, if_neg ht, ih]
        simp [hh, ht]

theorem foldl_without_of_not_isAround {p : Placement} {hosts : List HostId}
    (hp : ∀ h ∈ hosts, ¬p.IsAround h) : hosts.foldl without p = p := by
  rw [foldl_without, if_neg fun ⟨h, hmem, hh⟩ => hp h hmem (.inl hh),
    if_neg fun ⟨h, hmem, ht⟩ => hp h hmem (.inr ht)]

end Placement

/-- The hosts have the same specification, the same VMs with the same resources, and the same totals
in memory, bandwidth and storage. -/
structure Host.Alike {α : Type} (host host' : Host α) : Prop where
  same : host.IsSame host'
  resident : ∀ v, host'.resident.get? v = host.resident.get? v
  incoming : ∀ v, host'.incoming.get? v = host.incoming.get? v
  residentTotal : ∀ k, host'.residentTotal.stock k = host.residentTotal.stock k
  incomingTotal : ∀ k, host'.incomingTotal.stock k = host.incomingTotal.stock k

namespace Pool

variable {α : Type}

def placement (pool : Pool α) (v : VmId) : Option Placement :=
  (pool.vms.get? v).map fun vm => ⟨vm.host, vm.migrationTarget⟩

theorem placement_of_get? {pool : Pool α} {v : VmId} {vm : Vm α}
    (hv : pool.vms.get? v = some vm) : pool.placement v = some ⟨vm.host, vm.migrationTarget⟩ := by
  rw [placement, hv, Option.map_some]

theorem placement_eq_some_iff (pool : Pool α) (v : VmId) (p : Placement) :
    pool.placement v = some p
      ↔ ∃ vm, pool.vms.get? v = some vm ∧ vm.host = p.host ∧ vm.migrationTarget = p.target := by
  rw [placement, Option.map_eq_some_iff]
  constructor
  · rintro ⟨vm, hv, rfl⟩
    exact ⟨vm, hv, rfl, rfl⟩
  · rintro ⟨vm, hv, hh, ht⟩
    exact ⟨vm, hv, by rw [hh, ht]⟩

theorem placement_withVm (pool : Pool α) {between : Pool α} (hrest : between.vms = pool.vms)
    (v : VmId) (vm : Vm α) (w : VmId) :
    (between.withVm v vm).placement w
      = if w = v then some ⟨vm.host, vm.migrationTarget⟩ else pool.placement w := by
  rw [placement, vms_withVm, Table.get?_insert, hrest]
  split
  · rfl
  · rfl

/-! ### Operations -/

variable [Scalar α] {pool pool' : Pool α} {v : VmId}

theorem allocate_placement (own : pool.Ownership) {h : HostId}
    (hdone : pool.allocate v h = .done pool') :
    pool.placement v = some .unplaced
      ∧ ∀ w, pool'.placement w = if w = v then some ⟨some h, none⟩ else pool.placement w := by
  obtain ⟨vm, host, host', hv, hp, -, -, rfl⟩ := (allocate_eq_done_iff _ _ _ _).mp hdone
  have hm := own.migrationTarget_eq_none hv hp
  refine ⟨?_, fun w => ?_⟩
  · rw [placement_of_get? hv, hp, hm]
    rfl
  · rw [placement_withVm pool (vms_withHost _ _ _), hm]

theorem release_placement {h : HostId} (hr : pool.release v = some (h, pool')) :
    (∃ p, pool.placement v = some p ∧ p.host = some h)
      ∧ ∀ w, pool'.placement w = if w = v then some .unplaced else pool.placement w := by
  obtain ⟨vm, hv, hh, rfl⟩ := release_eq_some hr
  refine ⟨⟨_, placement_of_get? hv, hh⟩, fun w => ?_⟩
  rw [placement_withVm pool (by rw [vms_updateHost, vms_withoutReservation])]
  rfl

theorem startMigration_placement {t : HostId} (hdone : pool.startMigration v t = .done pool') :
    ∃ s, pool.placement v = some ⟨some s, none⟩ ∧ s ≠ t
      ∧ ∀ w, pool'.placement w = if w = v then some ⟨some s, some t⟩ else pool.placement w := by
  obtain ⟨vm, s, target, target', hv, hs, hm, hne, -, -, rfl⟩ :=
    (startMigration_eq_done_iff _ _ _ _).mp hdone
  refine ⟨s, ?_, hne, fun w => ?_⟩
  · rw [placement_of_get? hv, hs, hm]
  · rw [placement_withVm pool (vms_withHost _ _ _), Vm.movingTo, hs]

theorem finishMigration_placement {s : HostId}
    (hdone : pool.finishMigration v = .done (s, pool')) :
    ∃ t, pool.placement v = some ⟨some s, some t⟩
      ∧ ∀ w, pool'.placement w = if w = v then some ⟨some t, none⟩ else pool.placement w := by
  obtain ⟨vm, t, target, target', hv, hs, hm, -, -, rfl⟩ :=
    (finishMigration_eq_done_iff _ _ _ _).mp hdone
  refine ⟨t, ?_, fun w => ?_⟩
  · rw [placement_of_get? hv, hs, hm]
  · rw [placement_withVm pool (by rw [vms_updateHost, vms_withHost])]
    rfl

theorem cancelMigration_placement (hok : pool.cancelMigration v = .ok pool') :
    ∃ p t, pool.placement v = some p ∧ p.target = some t
      ∧ ∀ w, pool'.placement w = if w = v then some p.staying else pool.placement w := by
  obtain ⟨vm, t, hv, hm, rfl⟩ := (cancelMigration_eq_ok_iff _ _ _).mp hok
  refine ⟨_, t, placement_of_get? hv, hm, fun w => ?_⟩
  rw [placement_withVm pool (vms_withoutReservation _ _ _)]
  rfl

theorem updateVmMips_placement {mips : α} (hdone : pool.updateVmMips v mips = .done pool') :
    ∀ w, pool'.placement w = pool.placement w := by
  obtain ⟨vm, hv, -, hcases⟩ := (updateVmMips_eq_done_iff _ _ _ _).mp hdone
  have hsame : ∀ {between : Pool α}, between.vms = pool.vms →
      ∀ w, (between.withVm v { vm with mips }).placement w = pool.placement w := by
    intro between hrest w
    rw [placement_withVm pool hrest]
    split
    · rename_i hw
      rw [hw, placement_of_get? hv]
    · rfl
  rcases hcases with ⟨-, rfl⟩ | ⟨h, host, host', -, -, -, rfl⟩
  · exact hsame rfl
  · exact hsame (vms_withHost _ _ _)

/-! ### Operations that do nothing -/

theorem Ownership.exists_host (own : pool.Ownership) {vm : Vm α} {h : HostId}
    (hv : pool.vms.get? v = some vm) (hp : vm.host = some h) :
    ∃ host, pool.hosts.get? h = some host := by
  have hshare := own.resident_of_get? hv h
  rw [if_pos hp, residentShare, Option.bind_eq_some_iff] at hshare
  obtain ⟨host, hh, -⟩ := hshare
  exact ⟨host, hh⟩

theorem Ownership.exists_target (own : pool.Ownership) {vm : Vm α} {t : HostId}
    (hv : pool.vms.get? v = some vm) (hm : vm.migrationTarget = some t) :
    ∃ target, pool.hosts.get? t = some target := by
  have hshare := own.incoming_of_get? hv t
  rw [if_pos hm, incomingShare, Option.bind_eq_some_iff] at hshare
  obtain ⟨target, ht, -⟩ := hshare
  exact ⟨target, ht⟩

theorem Ownership.release_eq_some (own : pool.Ownership) {vm : Vm α} {h : HostId}
    (hv : pool.vms.get? v = some vm) (hp : vm.host = some h) :
    ∃ pool', pool.release v = some (h, pool') := by
  obtain ⟨host, hh⟩ := own.exists_host hv hp
  cases hm : vm.migrationTarget with
  | none => simp [Pool.release, hv, hp, hm, hh]
  | some t =>
    obtain ⟨target, ht⟩ := own.exists_target hv hm
    simp only [Pool.release, hv, hp, hm, ht, hosts_withHost, Table.get?_insert, Option.bind_eq_bind,
      Option.bind_some, hh, Option.pure_def]
    split
    · exact ⟨_, rfl⟩
    · exact ⟨_, rfl⟩

theorem placement_release (own : pool.Ownership) (v w : VmId) :
    (((pool.release v).map Prod.snd).getD pool).placement w
      = if w = v then (pool.placement w).map fun _ => .unplaced else pool.placement w := by
  cases hr : pool.release v with
  | some r =>
    obtain ⟨⟨p, hp, -⟩, hafter⟩ := release_placement hr
    rw [Option.map_some, Option.getD_some, hafter]
    split
    · rename_i hw
      rw [hw, hp, Option.map_some]
    · rfl
  | none =>
    rw [Option.map_none, Option.getD_none]
    split
    · rename_i hw
      rw [hw]
      cases hv : pool.vms.get? v with
      | none => rw [placement, hv, Option.map_none, Option.map_none]
      | some vm =>
        have hp : vm.host = none := by
          cases hp : vm.host with
          | none => rfl
          | some h =>
            obtain ⟨pool', hsome⟩ := own.release_eq_some hv hp
            rw [hr] at hsome
            cases hsome
        rw [placement_of_get? hv, hp, own.migrationTarget_eq_none hv hp, Option.map_some]
        rfl
    · rfl

theorem placement_cancelMigration (pool : Pool α) (v w : VmId) :
    ((pool.cancelMigration v).toOption.getD pool).placement w
      = if w = v then (pool.placement w).map Placement.staying else pool.placement w := by
  cases hc : pool.cancelMigration v with
  | ok pool' =>
    obtain ⟨p, t, hp, -, hafter⟩ := cancelMigration_placement hc
    rw [Except.toOption, Option.getD_some, hafter]
    split
    · rename_i hw
      rw [hw, hp, Option.map_some]
    · rfl
  | error e =>
    rw [Except.toOption, Option.getD_none]
    split
    · rename_i hw
      rw [hw]
      cases hv : pool.vms.get? v with
      | none => rw [placement, hv, Option.map_none, Option.map_none]
      | some vm =>
        have hm : vm.migrationTarget = none := by
          cases hm : vm.migrationTarget with
          | none => rfl
          | some t =>
            rw [(cancelMigration_eq_ok_iff _ _ _).mpr ⟨vm, t, hv, hm, rfl⟩] at hc
            cases hc
        rw [placement_of_get? hv, hm, Option.map_some]
        rfl
    · rfl

/-! ### Evictions -/

/-- Acting on VMs in turn does to each of them what acting on it once does. -/
theorem foldl_placement {act : Pool α → VmId → Pool α} {g : Placement → Placement}
    (hg : ∀ p, g (g p) = g p) (hown : ∀ pool v, pool.Ownership → (act pool v).Ownership)
    (hact : ∀ (pool : Pool α) v w, pool.Ownership →
      (act pool v).placement w = if w = v then (pool.placement w).map g else pool.placement w)
    (own : pool.Ownership) (vs : List VmId) (w : VmId) :
    (vs.foldl act pool).placement w
      = if w ∈ vs then (pool.placement w).map g else pool.placement w := by
  induction vs generalizing pool with
  | nil => simp
  | cons v vs ih =>
    rw [List.foldl_cons, ih (hown pool v own), hact pool v w own]
    by_cases hw : w = v
    · rw [if_pos hw, if_pos (List.mem_cons.mpr (.inl hw)), Option.map_map]
      split
      · exact Option.map_congr fun p _ => hg p
      · rfl
    · simp [hw]

theorem Ownership.mem_resident_iff (own : pool.Ownership) {h : HostId} {host : Host α}
    (hh : pool.hosts.get? h = some host) (w : VmId) :
    w ∈ host.resident.keys ↔ ∃ p, pool.placement w = some p ∧ p.host = some h := by
  rw [Table.mem_keys_iff, ← residentShare_of_get? hh, own.resident]
  simp only [placedDemand_eq_some_iff, placement_eq_some_iff]
  constructor
  · rintro ⟨d, vm, hv, hp, -⟩
    exact ⟨⟨vm.host, vm.migrationTarget⟩, ⟨vm, hv, rfl, rfl⟩, hp⟩
  · rintro ⟨p, ⟨vm, hv, hhost, -⟩, hp⟩
    exact ⟨_, vm, hv, hhost.trans hp, rfl⟩

theorem Ownership.mem_incoming_iff (own : pool.Ownership) {h : HostId} {host : Host α}
    (hh : pool.hosts.get? h = some host) (w : VmId) :
    w ∈ host.incoming.keys ↔ ∃ p, pool.placement w = some p ∧ p.target = some h := by
  rw [Table.mem_keys_iff, ← incomingShare_of_get? hh, own.incoming]
  simp only [movingDemand_eq_some_iff, placement_eq_some_iff]
  constructor
  · rintro ⟨d, vm, hv, hm, -⟩
    exact ⟨⟨vm.host, vm.migrationTarget⟩, ⟨vm, hv, rfl, rfl⟩, hm⟩
  · rintro ⟨p, ⟨vm, hv, -, htarget⟩, hp⟩
    exact ⟨_, vm, hv, htarget.trans hp, rfl⟩

theorem Ownership.isResident_iff_of_placement (own : pool.Ownership) {v : VmId} {s : HostId}
    {t : Option HostId} (hv : pool.placement v = some ⟨some s, t⟩) (g : HostId) :
    pool.IsResident g v ↔ g = s := by
  obtain ⟨vm, hvm, hhost, -⟩ := (placement_eq_some_iff _ _ _).mp hv
  simp only [own.isResident_iff, hvm, Option.some.injEq, exists_eq_left', hhost]
  exact eq_comm

theorem Ownership.isIncoming_iff_of_placement (own : pool.Ownership) {v : VmId} {t : HostId}
    {s : Option HostId} (hv : pool.placement v = some ⟨s, some t⟩) (g : HostId) :
    pool.IsIncoming g v ↔ g = t := by
  obtain ⟨vm, hvm, -, htarget⟩ := (placement_eq_some_iff _ _ _).mp hv
  simp only [own.isIncoming_iff, hvm, Option.some.injEq, exists_eq_left', htarget]
  exact eq_comm

theorem Ownership.of_steps {admits : Op α → Prop} (own : pool.Ownership)
    (cancels : ∀ v, admits (.cancelMigration v)) (releases : ∀ v, admits (.release v))
    (h : Steps admits pool pool') : pool'.Ownership :=
  h.invariant cancels releases (fun _ _ _ _ own hc => own.change hc) own

theorem Ownership.rearranged (own : pool.Ownership) (h : Steps Op.Rearranges pool pool') :
    pool'.Ownership := own.of_steps (fun _ => trivial) (fun _ => trivial) h

theorem evictHost_placement (own : pool.Ownership) (h : HostId) (w : VmId) :
    (pool.evictHost h).2.placement w = (pool.placement w).map (·.without h) := by
  have hkeep : ∀ p, pool.placement w = some p → ¬p.IsAround h →
      (pool.placement w).map (·.without h) = pool.placement w := by
    intro p hp hnot
    rw [hp, Option.map_some, Placement.without_of_not_isAround hnot]
  cases hh : pool.hosts.get? h with
  | none =>
    rw [evictHost, hh]
    cases hp : pool.placement w with
    | none => rfl
    | some p =>
      rw [← hp]
      refine (hkeep p hp ?_).symm
      obtain ⟨vm, hv, hhost, htarget⟩ := (placement_eq_some_iff _ _ _).mp hp
      rintro (hr | hi)
      · obtain ⟨host, hsome⟩ := own.exists_host hv (hhost.trans hr)
        rw [hh] at hsome
        cases hsome
      · obtain ⟨host, hsome⟩ := own.exists_target hv (htarget.trans hi)
        rw [hh] at hsome
        cases hsome
  | some host =>
    simp only [evictHost, hh]
    have hcancel : ∀ vs : List VmId, (vs.foldl
        (fun pool id => (pool.cancelMigration id).toOption.getD pool) pool).Ownership := fun vs =>
      cancelMigration_keeps (fun _ _ _ own hc => own.change hc) vs own
    rw [foldl_placement (g := fun _ => .unplaced) (fun _ => rfl)
        (fun pool v own => own.rearranged (release_steps pool v))
        (fun pool v w own => placement_release own v w) (hcancel _),
      foldl_placement (g := Placement.staying) (fun _ => rfl)
        (fun pool v own => own.rearranged (cancelMigration_steps pool v))
        (fun pool v w _ => placement_cancelMigration pool v w) own]
    simp only [own.mem_resident_iff hh, own.mem_incoming_iff hh]
    cases hp : pool.placement w with
    | none => simp
    | some p =>
      simp only [Option.some.injEq, exists_eq_left', Option.map_some, Placement.without]
      split
      · split
        · rfl
        · rfl
      · split
        · rfl
        · rfl

/-! ### Pools that are arranged alike -/

/-- Both pools have the same hosts and the same VMs in the same places. -/
structure Arranged (pool pool' : Pool α) : Prop where
  hosts : pool.SameHosts pool'
  vms : pool.SameVms pool'
  placement : ∀ v, pool'.placement v = pool.placement v

theorem demand_eq_of_toVmSpec_eq {vm vm' : Vm α} (h : vm.toVmSpec = vm'.toVmSpec) :
    vm.demand = vm'.demand := by
  rw [Vm.demand, Vm.demand, Vm.totalMips, Vm.totalMips, h]

namespace Arranged

variable (ha : pool.Arranged pool')

include ha

theorem get? {vm' : Vm α} (hv : pool'.vms.get? v = some vm') :
    ∃ vm, pool.vms.get? v = some vm ∧ vm.host = vm'.host
      ∧ vm.migrationTarget = vm'.migrationTarget ∧ vm.demand = vm'.demand := by
  obtain ⟨vm, hvm, -, hspec⟩ := ha.vms.get? hv
  have hplace := ha.placement v
  rw [placement_of_get? hv, placement_of_get? hvm, Option.some.injEq, Placement.mk.injEq] at hplace
  exact ⟨vm, hvm, hplace.1.symm, hplace.2.symm, demand_eq_of_toVmSpec_eq hspec⟩

omit [Scalar α] in
theorem symm : pool'.Arranged pool :=
  ⟨ha.hosts.symm, ha.vms.symm, fun v => (ha.placement v).symm⟩

theorem placedDemand (h : HostId) (v : VmId) :
    pool'.placedDemand h v = pool.placedDemand h v := by
  refine Option.ext fun d => ?_
  rw [placedDemand_eq_some_iff, placedDemand_eq_some_iff]
  constructor
  · rintro ⟨vm', hv, hh, hd⟩
    obtain ⟨vm, hvm, hhost, -, hdemand⟩ := ha.get? hv
    exact ⟨vm, hvm, hhost.trans hh, hdemand.trans hd⟩
  · rintro ⟨vm', hv, hh, hd⟩
    obtain ⟨vm, hvm, hhost, -, hdemand⟩ := ha.symm.get? hv
    exact ⟨vm, hvm, hhost.trans hh, hdemand.trans hd⟩

theorem movingDemand (h : HostId) (v : VmId) :
    pool'.movingDemand h v = pool.movingDemand h v := by
  refine Option.ext fun d => ?_
  rw [movingDemand_eq_some_iff, movingDemand_eq_some_iff]
  constructor
  · rintro ⟨vm', hv, hh, hd⟩
    obtain ⟨vm, hvm, -, htarget, hdemand⟩ := ha.get? hv
    exact ⟨vm, hvm, htarget.trans hh, hdemand.trans hd⟩
  · rintro ⟨vm', hv, hh, hd⟩
    obtain ⟨vm, hvm, -, htarget, hdemand⟩ := ha.symm.get? hv
    exact ⟨vm, hvm, htarget.trans hh, hdemand.trans hd⟩

theorem alike_of_get? (hr : pool.Reachable) (hr' : pool'.Reachable) {h : HostId}
    {host host' : Host α} (hh : pool.hosts.get? h = some host)
    (hh' : pool'.hosts.get? h = some host') : host.Alike host' := by
  obtain ⟨former, hformer, hsame⟩ := ha.hosts.get? hh'
  rw [hh, Option.some.injEq] at hformer
  subst hformer
  have hresident : ∀ v, host'.resident.get? v = host.resident.get? v := by
    intro v
    rw [← residentShare_of_get? hh, ← residentShare_of_get? hh', hr'.ownership.resident,
      hr.ownership.resident, ha.placedDemand]
  have hincoming : ∀ v, host'.incoming.get? v = host.incoming.get? v := by
    intro v
    rw [← incomingShare_of_get? hh, ← incomingShare_of_get? hh', hr'.ownership.incoming,
      hr.ownership.incoming, ha.movingDemand]
  refine ⟨hsame, hresident, hincoming, fun k => ?_, fun k => ?_⟩
  · rw [(hr'.balanced h host' hh').resident, (hr.balanced h host hh).resident]
    exact Table.total_eq_of_get? hresident _
  · rw [(hr'.balanced h host' hh').incoming, (hr.balanced h host hh).incoming]
    exact Table.total_eq_of_get? hincoming _

/-- Hosts of reachable pools that are arranged alike are alike. -/
theorem hosts_alike (hr : pool.Reachable) (hr' : pool'.Reachable) (h : HostId) :
    Option.Rel Host.Alike (pool.hosts.get? h) (pool'.hosts.get? h) := by
  cases hh' : pool'.hosts.get? h with
  | some host' =>
    obtain ⟨host, hh, -⟩ := ha.hosts.get? hh'
    rw [hh]
    exact .some (ha.alike_of_get? hr hr' hh hh')
  | none =>
    cases hh : pool.hosts.get? h with
    | none => exact .none
    | some host =>
      obtain ⟨host', hknown, -⟩ := ha.hosts.symm.get? hh
      rw [hh'] at hknown
      cases hknown

end Arranged

end Pool

end Datacenter
