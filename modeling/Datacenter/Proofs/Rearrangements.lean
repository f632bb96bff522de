import Datacenter.Ledger
import Datacenter.Simulation.Plan
import Datacenter.Proofs.Ownership

/-!
# Rearrangements

Placing, releasing and migrating VMs rearranges them: hosts and VMs are the same ones afterwards,
and no VM asks for anything else. Starting a plan and restoring a snapshot are runs of such
operations, whether or not they get to their end. A restoration places only VMs that it is to
restore and that have an entry.

Main statements: `Steps.sameHosts`, `Steps.sameVms`, `startPlan_steps` and `tryRestore_restores`.
-/

namespace Datacenter

variable {α : Type}

namespace Pool

/-! ### The VMs of a pool -/

/-- Both pools have the same VMs, wherever these are. -/
def SameVms (pool pool' : Pool α) : Prop :=
  ∀ v, (pool'.vms.get? v).map (fun vm => (vm.id, vm.toVmSpec))
    = (pool.vms.get? v).map fun vm => (vm.id, vm.toVmSpec)

namespace SameVms

variable {pool pool' : Pool α}

theorem refl (pool : Pool α) : pool.SameVms pool := fun _ => rfl

theorem trans {a b c : Pool α} (hab : a.SameVms b) (hbc : b.SameVms c) : a.SameVms c :=
  fun v => (hbc v).trans (hab v)

theorem symm (hs : pool.SameVms pool') : pool'.SameVms pool := fun v => (hs v).symm

theorem withVm {between : Pool α} {v : VmId} {vm vm' : Vm α} (hv : pool.vms.get? v = some vm)
    (hrest : between.vms = pool.vms) (hid : vm'.id = vm.id) (hspec : vm'.toVmSpec = vm.toVmSpec) :
    pool.SameVms (between.withVm v vm') := by
  intro w
  rw [vms_withVm, Table.get?_insert, hrest]
  split
  · rename_i hw
    rw [hw, hv, Option.map_some, Option.map_some, hid, hspec]
  · rfl

theorem get? (hs : pool.SameVms pool') {v : VmId} {vm' : Vm α} (hv : pool'.vms.get? v = some vm') :
    ∃ vm, pool.vms.get? v = some vm ∧ vm.id = vm'.id ∧ vm.toVmSpec = vm'.toVmSpec := by
  have heq := hs v
  rw [hv, Option.map_some, eq_comm, Option.map_eq_some_iff] at heq
  obtain ⟨vm, hvm, hpair⟩ := heq
  rw [Prod.mk.injEq] at hpair
  exact ⟨vm, hvm, hpair.1, hpair.2⟩

end SameVms

/-! ### Runs -/

variable [Scalar α] {pool pool' : Pool α}

namespace Steps

theorem trans {admits : Op α → Prop} {a b c : Pool α} (hab : Steps admits a b)
    (hbc : Steps admits b c) : Steps admits a c := by
  induction hbc with
  | refl => exact hab
  | tail _ ha hop ih => exact .tail ih ha hop

theorem mono {admits admits' : Op α → Prop} (hle : ∀ op, admits op → admits' op)
    (h : Steps admits pool pool') : Steps admits' pool pool' := by
  induction h with
  | refl => exact .refl _
  | tail _ ha hop ih => exact .tail ih (hle _ ha) hop

theorem single {admits : Op α → Prop} {op : Op α} (ha : admits op)
    (h : op.apply pool = .ok pool') : Steps admits pool pool' := .tail (.refl pool) ha h

theorem reachable {admits : Op α → Prop} (h : Steps admits pool pool') (hr : pool.Reachable) :
    pool'.Reachable := Steps.trans hr (h.mono fun _ _ => trivial)

theorem of_change {admits : Op α → Prop} {op : Op α} (h : Change op pool pool')
    (ha : admits op) : Steps admits pool pool' := single ha h.apply_eq_ok

end Steps

/-! ### Operations that rearrange VMs -/

namespace Op

omit [Scalar α] in
/-- The operation places, releases or migrates VMs. -/
def Rearranges : Op α → Prop
  | .addHost _ | .addVm _ | .removeVm _ | .updateVmMips _ _ => False
  | .allocate _ _ | .release _ | .startMigration _ _ | .finishMigration _ | .cancelMigration _
  | .evictHost _ => True

omit [Scalar α] in
/-- The operation is one that restorations perform, and it places no VM other than those. -/
def Restores (places : VmId → Prop) : Op α → Prop
  | .allocate v _ => places v
  | .addHost _ | .addVm _ | .removeVm _ | .updateVmMips _ _ | .finishMigration _ => False
  | .release _ | .startMigration _ _ | .cancelMigration _ | .evictHost _ => True

omit [Scalar α] in
theorem Restores.rearranges {places : VmId → Prop} {op : Op α} (h : op.Restores places) :
    op.Rearranges := by
  cases op with
  | addHost _ | addVm _ | removeVm _ | updateVmMips _ _ => exact h.elim
  | _ => trivial

end Op

theorem Change.sameHosts {op : Op α} (hop : op.Rearranges) (h : Change op pool pool') :
    pool.SameHosts pool' := by
  cases h with
  | addHost h => exact hop.elim
  | addVm h => exact hop.elim
  | removeVm h => exact hop.elim
  | updateVmMips h => exact hop.elim
  | allocate h =>
    obtain ⟨vm, host, host', -, -, hh, ha, rfl⟩ := (allocate_eq_done_iff _ _ _ _).mp h
    obtain ⟨-, -, -, total, -, rfl⟩ := (Host.allocate_eq_done_iff _ _ _ _).mp ha
    exact SameHosts.withHost hh ⟨rfl, rfl⟩
  | release h =>
    obtain ⟨vm, -, -, rfl⟩ := release_eq_some h
    exact (sameHosts_withoutReservation pool _ vm).trans
      (.updateHost _ _ fun host => host.isSame_release _)
  | startMigration h =>
    obtain ⟨vm, s, target, target', -, -, -, -, ht, hr, rfl⟩ :=
      (startMigration_eq_done_iff _ _ _ _).mp h
    obtain ⟨-, -, -, total, -, rfl⟩ := (Host.reserve_eq_done_iff _ _ _ _).mp hr
    exact SameHosts.withHost ht ⟨rfl, rfl⟩
  | @finishMigration _ _ v s h =>
    obtain ⟨vm, t, target, target', -, -, -, ht, hl, rfl⟩ :=
      (finishMigration_eq_done_iff _ _ _ _).mp h
    have hsame : target.IsSame target' := by
      obtain ⟨demand, total, -, -, rfl⟩ := (Host.land_eq_done_iff _ _ _).mp hl
      exact ⟨rfl, rfl⟩
    exact (SameHosts.withHost ht hsame).trans
      (.updateHost _ s fun host => host.isSame_release v)
  | cancelMigration h =>
    obtain ⟨vm, t, -, -, rfl⟩ := (cancelMigration_eq_ok_iff _ _ _).mp h
    exact sameHosts_withoutReservation pool _ vm

/-- Resizing a VM changes what its host holds. -/
theorem updateVmMips_sameHosts {v : VmId} {mips : α} (h : pool.updateVmMips v mips = .done pool') :
    pool.SameHosts pool' := by
  obtain ⟨vm, -, -, hcases⟩ := (updateVmMips_eq_done_iff _ _ _ _).mp h
  rcases hcases with ⟨-, rfl⟩ | ⟨g, host, host', -, hg, hz, rfl⟩
  · exact .refl pool
  · obtain ⟨current, available, room, total, -, -, -, -, -, rfl⟩ :=
      (Host.resize_eq_done_iff _ _ _ _).mp hz
    exact SameHosts.withHost hg ⟨rfl, rfl⟩

theorem Change.sameVms {op : Op α} (hop : op.Rearranges) (h : Change op pool pool') :
    pool.SameVms pool' := by
  cases h with
  | addHost h => exact hop.elim
  | addVm h => exact hop.elim
  | removeVm h => exact hop.elim
  | updateVmMips h => exact hop.elim
  | allocate h =>
    obtain ⟨vm, host, host', hv, -, -, -, rfl⟩ := (allocate_eq_done_iff _ _ _ _).mp h
    exact SameVms.withVm hv rfl rfl rfl
  | release h =>
    obtain ⟨vm, hv, -, rfl⟩ := release_eq_some h
    exact SameVms.withVm hv (by simp) rfl rfl
  | startMigration h =>
    obtain ⟨vm, s, target, target', hv, -, -, -, -, -, rfl⟩ :=
      (startMigration_eq_done_iff _ _ _ _).mp h
    exact SameVms.withVm hv rfl rfl rfl
  | finishMigration h =>
    obtain ⟨vm, t, target, target', hv, -, -, -, -, rfl⟩ :=
      (finishMigration_eq_done_iff _ _ _ _).mp h
    exact SameVms.withVm hv (by simp) rfl rfl
  | cancelMigration h =>
    obtain ⟨vm, t, hv, -, rfl⟩ := (cancelMigration_eq_ok_iff _ _ _).mp h
    exact SameVms.withVm hv (by simp) rfl rfl

namespace Steps

theorem sameHosts (h : Steps Op.Rearranges pool pool') : pool.SameHosts pool' :=
  h.invariant (fun _ => trivial) (fun _ => trivial)
    (fun _ _ _ hop hs hc => hs.trans (hc.sameHosts hop)) (.refl pool)

theorem sameVms (h : Steps Op.Rearranges pool pool') : pool.SameVms pool' :=
  h.invariant (fun _ => trivial) (fun _ => trivial)
    (fun _ _ _ hop hs hc => hs.trans (hc.sameVms hop)) (.refl pool)

end Steps

theorem allocate_steps {v : VmId} {h : HostId} (hdone : pool.allocate v h = .done pool') :
    Steps Op.Rearranges pool pool' := .of_change (.allocate hdone) trivial

theorem startMigration_steps {v : VmId} {t : HostId}
    (hdone : pool.startMigration v t = .done pool') : Steps Op.Rearranges pool pool' :=
  .of_change (.startMigration hdone) trivial

theorem release_steps (pool : Pool α) (v : VmId) :
    Steps Op.Rearranges pool (((pool.release v).map Prod.snd).getD pool) := by
  have hop : Op.Rearranges (.release v : Op α) := trivial
  exact .single hop rfl

theorem cancelMigration_steps (pool : Pool α) (v : VmId) :
    Steps Op.Rearranges pool ((pool.cancelMigration v).toOption.getD pool) := by
  have hop : Op.Rearranges (.cancelMigration v : Op α) := trivial
  exact .single hop rfl

theorem evictHost_steps (pool : Pool α) (h : HostId) :
    Steps Op.Rearranges pool (pool.evictHost h).2 := by
  have hop : Op.Rearranges (.evictHost h : Op α) := trivial
  exact .single hop rfl

/-! ### Plans and snapshots -/

/-- Either the first migration is started, and the others after it, or the plan ends with it. -/
theorem startPlan_cons_eq_ok {m : Migration α} {rest : List (Migration α)}
    {rejection? : Option PlanRejection}
    (h : pool.startPlan (m :: rest) = .ok (pool', rejection?)) :
    (∃ between, pool.startMigration m.vm m.target = .done between
      ∧ between.startPlan rest = .ok (pool', rejection?))
    ∨ ∃ reason, pool.startMigration m.vm m.target = .refused reason
      ∧ pool' = pool ∧ rejection? = some ⟨m.vm, m.target, reason⟩ := by
  rw [startPlan] at h
  cases hstart : pool.startMigration m.vm m.target with
  | done between =>
    rw [hstart] at h
    exact .inl ⟨between, rfl, h⟩
  | refused reason =>
    rw [hstart] at h
    cases h
    exact .inr ⟨reason, rfl, rfl, rfl⟩
  | fault e =>
    rw [hstart] at h
    cases h

theorem startPlan_steps {ms : List (Migration α)} {rejection? : Option PlanRejection}
    (h : pool.startPlan ms = .ok (pool', rejection?)) : Steps Op.Rearranges pool pool' := by
  induction ms generalizing pool with
  | nil =>
    rw [startPlan, Except.ok.injEq, Prod.mk.injEq] at h
    obtain ⟨rfl, -⟩ := h
    exact .refl _
  | cons m rest ih =>
    rcases startPlan_cons_eq_ok h with ⟨between, hstart, hrest⟩ | ⟨reason, -, rfl, -⟩
    · exact (startMigration_steps hstart).trans (ih hrest)
    · exact .refl _

end Pool

namespace Restoration

theorem ofOutcome_eq_ok {pool : Pool α} {v : VmId} {h : HostId} {x : Outcome Refusal (Pool α)}
    {r : Restoration α} (hr : ofOutcome pool v h x = .ok r) :
    (∃ pool', x = .done pool' ∧ r = ⟨pool', none⟩)
      ∨ ∃ reason, x = .refused reason ∧ r = ⟨pool, some (.refused v h reason)⟩ := by
  cases x with
  | done pool' => exact .inl ⟨pool', rfl, (Except.ok.inj hr).symm⟩
  | refused reason => exact .inr ⟨reason, rfl, (Except.ok.inj hr).symm⟩
  | fault e => cases hr

theorem andThen_eq_ok {r r' : Restoration α} {next : Pool α → Checked (Restoration α)}
    (h : r.andThen next = .ok r') :
    (r.failure = none ∧ next r.pool = .ok r') ∨ (r.failure.isSome = true ∧ r' = r) := by
  rw [andThen] at h
  cases hf : r.failure with
  | none =>
    rw [hf] at h
    exact .inl ⟨rfl, h⟩
  | some failure =>
    rw [hf] at h
    exact .inr ⟨rfl, (Except.ok.inj h).symm⟩

theorem done_of_ofOutcome {pool pool' : Pool α} {v : VmId} {h : HostId}
    {x : Outcome Refusal (Pool α)} (hr : ofOutcome pool v h x = .ok ⟨pool', none⟩) :
    x = .done pool' := by
  rcases ofOutcome_eq_ok hr with ⟨between, hdone, heq⟩ | ⟨reason, -, heq⟩
  · cases heq
    exact hdone
  · cases heq

theorem done_of_andThen {r : Restoration α} {next : Pool α → Checked (Restoration α)}
    {pool' : Pool α} (h : r.andThen next = .ok ⟨pool', none⟩) :
    ∃ between, r = ⟨between, none⟩ ∧ next between = .ok ⟨pool', none⟩ := by
  obtain ⟨between, failure⟩ := r
  rcases andThen_eq_ok h with ⟨hf, hnext⟩ | ⟨hf, heq⟩
  · cases hf
    exact ⟨between, rfl, hnext⟩
  · cases heq
    cases hf

end Restoration

namespace Ledger

open Pool

variable [Scalar α] {pool : Pool α} {r : Restoration α} {P : VmId → Prop}

theorem evictAll_restores (pool : Pool α) (hosts : List HostId) :
    Steps (Op.Restores P) pool (evictAll pool hosts).2 := by
  induction hosts generalizing pool with
  | nil => exact .refl pool
  | cons h hosts ih =>
    have hop : Op.Restores P (.evictHost h : Op α) := trivial
    exact (Steps.single hop rfl).trans (ih _)

theorem resume_restores {toRestore : Std.TreeSet VmId} {migratingIn : List (VmId × HostId)}
    (h : resume toRestore pool migratingIn = .ok r) : Steps (Op.Restores P) pool r.pool := by
  induction migratingIn generalizing pool with
  | nil =>
    cases h
    exact .refl pool
  | cons e rest ih =>
    rw [resume] at h
    split at h
    · exact ih h
    · split at h
      · cases h
        exact .refl pool
      · split at h
        · obtain ⟨between, hstart, h⟩ := (Checked.bind_eq_ok_iff _ _ _).mp h
          rcases Restoration.ofOutcome_eq_ok hstart with ⟨pool', hdone, rfl⟩ | ⟨reason, -, rfl⟩
          · rcases Restoration.andThen_eq_ok h with ⟨-, h⟩ | ⟨hf, -⟩
            · exact (Steps.of_change (.startMigration hdone) trivial).trans (ih h)
            · cases hf
          · rcases Restoration.andThen_eq_ok h with ⟨hf, -⟩ | ⟨-, rfl⟩
            · cases hf
            · exact .refl pool
        · exact ih h

theorem restoreHost_restores {vm : Vm α} {entry : SnapshotEntry} (hp : P entry.vm)
    (h : restoreHost pool vm entry = .ok r) : Steps (Op.Restores P) pool r.pool := by
  rw [restoreHost] at h
  split at h
  · cases h
    exact .refl pool
  · have hop : Op.Restores P (.release entry.vm : Op α) := trivial
    have hrelease : Steps _ pool _ := .single hop rfl
    split at h
    · cases h
      exact hrelease
    · rcases Restoration.ofOutcome_eq_ok h with ⟨pool', hdone, rfl⟩ | ⟨reason, -, rfl⟩
      · exact hrelease.trans (.of_change (.allocate hdone) hp)
      · exact hrelease

theorem restoreTarget_restores {entry : SnapshotEntry} (h : restoreTarget pool entry = .ok r) :
    Steps (Op.Restores P) pool r.pool := by
  rw [restoreTarget, Checked.bind_eq_ok_iff] at h
  obtain ⟨vm, -, h⟩ := h
  split at h
  · cases h
    exact .refl pool
  · have hop : Op.Restores P (.cancelMigration entry.vm : Op α) := trivial
    have hcancel : Steps _ pool _ := .single hop rfl
    split at h
    · cases h
      exact hcancel
    · rcases Restoration.ofOutcome_eq_ok h with ⟨pool', hdone, rfl⟩ | ⟨reason, -, rfl⟩
      · exact hcancel.trans (.of_change (.startMigration hdone) trivial)
      · exact hcancel

theorem restoreEntry_restores {entry : SnapshotEntry} (hp : P entry.vm)
    (h : restoreEntry pool entry = .ok r) : Steps (Op.Restores P) pool r.pool := by
  rw [restoreEntry] at h
  split at h
  · cases h
    exact .refl pool
  · obtain ⟨between, hhost, h⟩ := (Checked.bind_eq_ok_iff _ _ _).mp h
    have hbetween := restoreHost_restores hp hhost
    rcases Restoration.andThen_eq_ok h with ⟨-, h⟩ | ⟨-, rfl⟩
    · exact hbetween.trans (restoreTarget_restores h)
    · exact hbetween

theorem restoreEntries_restores {toRestore : Std.TreeSet VmId} {entries : List SnapshotEntry}
    (hp : ∀ entry ∈ entries, toRestore.contains entry.vm = true → P entry.vm)
    (h : restoreEntries toRestore pool entries = .ok r) :
    Steps (Op.Restores P) pool r.pool := by
  induction entries generalizing pool with
  | nil =>
    cases h
    exact .refl pool
  | cons entry rest ih =>
    have hrest : ∀ e ∈ rest, toRestore.contains e.vm = true → P e.vm :=
      fun e he => hp e (List.mem_cons_of_mem _ he)
    rw [restoreEntries] at h
    split at h
    · rename_i hcontains
      obtain ⟨between, hentry, h⟩ := (Checked.bind_eq_ok_iff _ _ _).mp h
      have hbetween := restoreEntry_restores (hp entry List.mem_cons_self hcontains) hentry
      rcases Restoration.andThen_eq_ok h with ⟨-, h⟩ | ⟨-, rfl⟩
      · exact hbetween.trans (ih hrest h)
      · exact hbetween
    · exact ih hrest h

/-- Only VMs that are to be restored and have an entry are placed. -/
theorem tryRestore_restores {snapshot : Snapshot} {vms : List VmId} {hosts : List HostId}
    (h : tryRestore ⟨some snapshot⟩ pool vms hosts = .ok r) :
    Steps (Op.Restores fun v => v ∈ vms ∧ ∃ entry ∈ snapshot.entries, entry.vm = v)
      pool r.pool := by
  rw [tryRestore] at h
  obtain ⟨between, hresume, h⟩ := (Checked.bind_eq_ok_iff _ _ _).mp h
  refine (evictAll_restores pool hosts).trans ((resume_restores hresume).trans ?_)
  rcases Restoration.andThen_eq_ok h with ⟨-, h⟩ | ⟨-, rfl⟩
  · refine restoreEntries_restores (fun entry he hcontains => ?_) h
    rw [Std.TreeSet.contains_ofList, List.contains_iff_mem] at hcontains
    exact ⟨hcontains, entry, he, rfl⟩
  · exact .refl _

/-! ### Restorations rearrange VMs -/

theorem evictAll_steps (pool : Pool α) (hosts : List HostId) :
    Steps Op.Rearranges pool (evictAll pool hosts).2 :=
  (evictAll_restores (P := fun _ => True) pool hosts).mono fun _ hop => hop.rearranges

theorem resume_steps {toRestore : Std.TreeSet VmId} {migratingIn : List (VmId × HostId)}
    (h : resume toRestore pool migratingIn = .ok r) : Steps Op.Rearranges pool r.pool :=
  (resume_restores (P := fun _ => True) h).mono fun _ hop => hop.rearranges

theorem restoreEntry_steps {entry : SnapshotEntry} (h : restoreEntry pool entry = .ok r) :
    Steps Op.Rearranges pool r.pool :=
  (restoreEntry_restores (P := fun _ => True) trivial h).mono fun _ hop => hop.rearranges

theorem tryRestore_steps {ledger : Ledger} {vms : List VmId} {hosts : List HostId}
    (h : ledger.tryRestore pool vms hosts = .ok r) : Steps Op.Rearranges pool r.pool := by
  obtain ⟨_ | snapshot⟩ := ledger
  · cases h
    exact .refl pool
  · exact (tryRestore_restores h).mono fun _ hop => hop.rearranges

end Ledger

end Datacenter
