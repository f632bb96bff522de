import Datacenter.Pool.Basic
import Datacenter.Proofs.HostSteps

/-!
# Runs of pool operations

An operation on a pool leaves the pool as it is when it is refused. A pool is reachable if a run of
operations leads to it from the pool without hosts and VMs.

Each operation is told once: what it needs, and which records it writes. Eviction ends migrations
and releases VMs one after the other, so what both of them keep is kept by it.

Main statements: `allocate_eq_done_iff` to `updateVmMips_eq_done_iff`, and `evictHost_keeps`.
-/

namespace Datacenter

/-! ### Tables of the pool -/

namespace Pool

variable {α : Type}

@[simp] theorem hosts_withHost (pool : Pool α) (h : HostId) (host : Host α) :
    (pool.withHost h host).hosts = pool.hosts.insert h host := rfl

@[simp] theorem vms_withHost (pool : Pool α) (h : HostId) (host : Host α) :
    (pool.withHost h host).vms = pool.vms := rfl

@[simp] theorem hosts_withVm (pool : Pool α) (v : VmId) (vm : Vm α) :
    (pool.withVm v vm).hosts = pool.hosts := rfl

@[simp] theorem vms_withVm (pool : Pool α) (v : VmId) (vm : Vm α) :
    (pool.withVm v vm).vms = pool.vms.insert v vm := rfl

@[simp] theorem nextHost_withHost (pool : Pool α) (h : HostId) (host : Host α) :
    (pool.withHost h host).nextHost = pool.nextHost := rfl

@[simp] theorem nextHost_withVm (pool : Pool α) (v : VmId) (vm : Vm α) :
    (pool.withVm v vm).nextHost = pool.nextHost := rfl

@[simp] theorem nextVm_withHost (pool : Pool α) (h : HostId) (host : Host α) :
    (pool.withHost h host).nextVm = pool.nextVm := rfl

@[simp] theorem nextVm_withVm (pool : Pool α) (v : VmId) (vm : Vm α) :
    (pool.withVm v vm).nextVm = pool.nextVm := rfl

theorem withHost_of_get? {pool : Pool α} {h : HostId} {host : Host α}
    (hh : pool.hosts.get? h = some host) : pool.withHost h host = pool := by
  rw [withHost, Table.insert_of_get? hh]

theorem withVm_of_get? {pool : Pool α} {v : VmId} {vm : Vm α} (hv : pool.vms.get? v = some vm) :
    pool.withVm v vm = pool := by
  rw [withVm, Table.insert_of_get? hv]

theorem withHost_withHost (pool : Pool α) (h : HostId) (host host' : Host α) :
    (pool.withHost h host).withHost h host' = pool.withHost h host' := by
  simp only [withHost, Table.insert_insert]

theorem withVm_withVm (pool : Pool α) (v : VmId) (vm vm' : Vm α) :
    (pool.withVm v vm).withVm v vm' = pool.withVm v vm' := by
  simp only [withVm, Table.insert_insert]

theorem withHost_comm {pool : Pool α} {g h : HostId} {former : Host α} (hne : g ≠ h)
    (hg : pool.hosts.get? g = some former) (host host' : Host α) :
    (pool.withHost h host).withHost g host' = (pool.withHost g host').withHost h host := by
  simp only [withHost, Table.insert_comm hne hg]

theorem withHost_withVm (pool : Pool α) (v : VmId) (vm : Vm α) (h : HostId) (host : Host α) :
    (pool.withVm v vm).withHost h host = (pool.withHost h host).withVm v vm := rfl

theorem updateHost_of_get? {pool : Pool α} {h : HostId} {host : Host α}
    (hh : pool.hosts.get? h = some host) (f : Host α → Host α) :
    pool.updateHost h f = pool.withHost h (f host) := by
  rw [updateHost, hh]

@[simp] theorem vms_updateHost (pool : Pool α) (h : HostId) (f : Host α → Host α) :
    (pool.updateHost h f).vms = pool.vms := by
  rw [updateHost]
  split <;> rfl

@[simp] theorem nextHost_updateHost (pool : Pool α) (h : HostId) (f : Host α → Host α) :
    (pool.updateHost h f).nextHost = pool.nextHost := by
  rw [updateHost]
  split <;> rfl

@[simp] theorem nextVm_updateHost (pool : Pool α) (h : HostId) (f : Host α → Host α) :
    (pool.updateHost h f).nextVm = pool.nextVm := by
  rw [updateHost]
  split <;> rfl

theorem host_eq_ok_iff (pool : Pool α) (h : HostId) (host : Host α) :
    pool.host h = .ok host ↔ pool.hosts.get? h = some host := by
  rw [Pool.host]
  cases pool.hosts.get? h <;> simp

theorem vm_eq_ok_iff (pool : Pool α) (v : VmId) (vm : Vm α) :
    pool.vm v = .ok vm ↔ pool.vms.get? v = some vm := by
  rw [Pool.vm]
  cases pool.vms.get? v <;> simp

/-! ### What operations do -/

section

variable [Scalar α]

theorem nextId_eq_ok_iff (id next : Nat) :
    nextId id = .ok next ↔ id + 1 < UInt32.size ∧ next = id + 1 := by
  rw [nextId]
  split
  · rename_i h
    simp [h, eq_comm]
  · rename_i h
    simp [h]

theorem addHost_eq_ok_iff (pool pool' : Pool α) (spec : HostSpec α) (id : HostId) :
    pool.addHost spec = .ok (id, pool') ↔
      pool.nextHost + 1 < UInt32.size ∧ id = pool.nextHost
        ∧ pool' =
          { pool with
            hosts := pool.hosts.insert pool.nextHost (Host.create pool.nextHost spec)
            nextHost := pool.nextHost + 1 } := by
  simp only [addHost, Checked.bind_eq_ok_iff, nextId_eq_ok_iff, Checked.pure_eq_ok,
    Except.ok.injEq, Prod.mk.injEq]
  constructor
  · rintro ⟨next, ⟨hlt, rfl⟩, rfl, rfl⟩
    exact ⟨hlt, rfl, rfl⟩
  · rintro ⟨hlt, rfl, rfl⟩
    exact ⟨_, ⟨hlt, rfl⟩, rfl, rfl⟩

omit [Scalar α] in
theorem addVm_eq_ok_iff (pool pool' : Pool α) (spec : VmSpec α) (id : VmId) :
    pool.addVm spec = .ok (id, pool') ↔
      pool.nextVm + 1 < UInt32.size ∧ id = pool.nextVm
        ∧ pool' =
          { pool with
            vms := pool.vms.insert pool.nextVm (Vm.create pool.nextVm spec)
            nextVm := pool.nextVm + 1 } := by
  simp only [addVm, Checked.bind_eq_ok_iff, nextId_eq_ok_iff, Checked.pure_eq_ok,
    Except.ok.injEq, Prod.mk.injEq]
  constructor
  · rintro ⟨next, ⟨hlt, rfl⟩, rfl, rfl⟩
    exact ⟨hlt, rfl, rfl⟩
  · rintro ⟨hlt, rfl, rfl⟩
    exact ⟨_, ⟨hlt, rfl⟩, rfl, rfl⟩

omit [Scalar α] in
theorem removeVm_eq_ok_iff (pool pool' : Pool α) (v : VmId) (vm : Vm α) :
    pool.removeVm v = .ok (vm, pool') ↔
      pool.vms.get? v = some vm ∧ vm.host = none
        ∧ pool' = { pool with vms := pool.vms.erase v } := by
  rw [removeVm]
  cases hv : pool.vms.get? v with
  | none => simp
  | some record =>
    cases hh : record.host with
    | none =>
      simp only [hh, Option.isSome_none, Bool.false_eq_true, if_false, Except.ok.injEq,
        Prod.mk.injEq, Option.some.injEq]
      constructor
      · rintro ⟨rfl, rfl⟩
        exact ⟨rfl, hh, rfl⟩
      · rintro ⟨rfl, -, rfl⟩
        exact ⟨rfl, rfl⟩
    | some h =>
      simp only [hh, Option.isSome_some, if_true, reduceCtorEq, false_iff, Option.some.injEq]
      rintro ⟨rfl, hn, -⟩
      rw [hh] at hn
      cases hn

theorem allocate_eq_done_iff (pool pool' : Pool α) (v : VmId) (h : HostId) :
    pool.allocate v h = .done pool' ↔
      ∃ vm host host', pool.vms.get? v = some vm ∧ vm.host = none
        ∧ pool.hosts.get? h = some host ∧ host.allocate v vm.demand = .done host'
        ∧ pool' = (pool.withHost h host').withVm v
          { vm with host := some h, beingInstantiated := false } := by
  rw [allocate]
  cases hv : pool.vms.get? v with
  | none => simp
  | some vm =>
    cases hp : vm.host with
    | some g => simp [hp]
    | none =>
      cases hh : pool.hosts.get? h with
      | none => simp [hp]
      | some host => simp [hp, Outcome.bind_eq_done_iff, @eq_comm _ pool']

/-- The pool without what is kept for the VM on the host that it moves to. -/
def withoutReservation (pool : Pool α) (v : VmId) (vm : Vm α) : Pool α :=
  match vm.migrationTarget with
  | none => pool
  | some t => pool.updateHost t (·.cancel v)

@[simp] theorem vms_withoutReservation (pool : Pool α) (v : VmId) (vm : Vm α) :
    (pool.withoutReservation v vm).vms = pool.vms := by
  rw [withoutReservation]
  split
  · rfl
  · exact vms_updateHost ..

@[simp] theorem nextHost_withoutReservation (pool : Pool α) (v : VmId) (vm : Vm α) :
    (pool.withoutReservation v vm).nextHost = pool.nextHost := by
  rw [withoutReservation]
  split
  · rfl
  · exact nextHost_updateHost ..

@[simp] theorem nextVm_withoutReservation (pool : Pool α) (v : VmId) (vm : Vm α) :
    (pool.withoutReservation v vm).nextVm = pool.nextVm := by
  rw [withoutReservation]
  split
  · rfl
  · exact nextVm_updateHost ..

theorem release_eq_some {pool pool' : Pool α} {v : VmId} {h : HostId}
    (hr : pool.release v = some (h, pool')) :
    ∃ vm, pool.vms.get? v = some vm ∧ vm.host = some h
      ∧ pool' = ((pool.withoutReservation v vm).updateHost h (·.release v)).withVm v
        vm.unplaced := by
  simp only [release, Option.bind_eq_bind, Option.bind_eq_some_iff] at hr
  obtain ⟨vm, hv, g, hg, hr⟩ := hr
  cases ht : vm.migrationTarget with
  | none =>
    simp only [ht, Option.bind_some, Option.bind_eq_some_iff, Option.pure_def, Option.some.injEq,
      Prod.mk.injEq] at hr
    obtain ⟨host, hh, rfl, rfl⟩ := hr
    refine ⟨vm, hv, hg, ?_⟩
    rw [withoutReservation, ht, updateHost_of_get? hh]
  | some t =>
    simp only [ht, Option.bind_some, Option.bind_eq_some_iff, Option.pure_def, Option.some.injEq,
      Prod.mk.injEq] at hr
    obtain ⟨target, htarget, host, hh, rfl, rfl⟩ := hr
    refine ⟨vm, hv, hg, ?_⟩
    rw [withoutReservation, ht]
    simp only
    rw [updateHost_of_get? htarget, updateHost_of_get? hh]

theorem cancelMigration_eq_ok_iff (pool pool' : Pool α) (v : VmId) :
    pool.cancelMigration v = .ok pool' ↔
      ∃ vm t, pool.vms.get? v = some vm ∧ vm.migrationTarget = some t
        ∧ pool' = (pool.withoutReservation v vm).withVm v vm.staying := by
  rw [cancelMigration]
  cases hv : pool.vms.get? v with
  | none => simp
  | some vm =>
    cases ht : vm.migrationTarget with
    | none => simp [ht]
    | some t => simp [ht, withoutReservation, @eq_comm _ pool']

theorem startMigration_eq_done_iff (pool pool' : Pool α) (v : VmId) (t : HostId) :
    pool.startMigration v t = .done pool' ↔
      ∃ vm s target target', pool.vms.get? v = some vm ∧ vm.host = some s
        ∧ vm.migrationTarget = none ∧ s ≠ t ∧ pool.hosts.get? t = some target
        ∧ target.reserve v vm.demand = .done target'
        ∧ pool' = (pool.withHost t target').withVm v (vm.movingTo t) := by
  rw [startMigration]
  cases hv : pool.vms.get? v with
  | none => simp
  | some vm =>
    cases hp : vm.host with
    | none => simp [hp]
    | some s =>
      cases hm : vm.migrationTarget with
      | some g => simp [hp, Vm.isMigrating, hm]
      | none =>
        by_cases hst : s = t
        · simp [hp, Vm.isMigrating, hm, hst]
        · cases hh : pool.hosts.get? t with
          | none => simp [hp, Vm.isMigrating, hm, hst]
          | some target =>
            simp [hp, Vm.isMigrating, hm, hst, Outcome.bind_eq_done_iff, @eq_comm _ pool']

theorem finishMigration_eq_done_iff (pool pool' : Pool α) (v : VmId) (s : HostId) :
    pool.finishMigration v = .done (s, pool') ↔
      ∃ vm t target target', pool.vms.get? v = some vm ∧ vm.host = some s
        ∧ vm.migrationTarget = some t ∧ pool.hosts.get? t = some target
        ∧ target.land v = .done target'
        ∧ pool' = ((pool.withHost t target').updateHost s (·.release v)).withVm v
          (vm.runningOn t) := by
  rw [finishMigration]
  cases hv : pool.vms.get? v with
  | none => simp
  | some vm =>
    cases hp : vm.host with
    | none => simp [hp]
    | some g =>
      cases hm : vm.migrationTarget with
      | none => simp [hp, hm]
      | some t =>
        cases hh : pool.hosts.get? t with
        | none => simp [hp, hm, hh]
        | some target =>
          simp only [hp, hm, hh, Outcome.bind_eq_done_iff, Outcome.pure_eq, Outcome.done.injEq,
            Prod.mk.injEq, Option.some.injEq]
          constructor
          · rintro ⟨target', hl, rfl, rfl⟩
            exact ⟨vm, t, target, target', rfl, hp, hm, hh, hl, rfl⟩
          · rintro ⟨_, _, _, target', rfl, hs, ht, htarget, hl, rfl⟩
            rw [hp, Option.some.injEq] at hs
            rw [hm, Option.some.injEq] at ht
            subst hs ht
            rw [hh, Option.some.injEq] at htarget
            subst htarget
            exact ⟨target', hl, rfl, rfl⟩

theorem updateVmMips_eq_done_iff (pool pool' : Pool α) (v : VmId) (mips : α) :
    pool.updateVmMips v mips = .done pool' ↔
      ∃ vm, pool.vms.get? v = some vm ∧ vm.migrationTarget = none
        ∧ (vm.host = none ∧ pool' = pool.withVm v { vm with mips }
          ∨ ∃ h host host', vm.host = some h ∧ pool.hosts.get? h = some host
            ∧ host.resize v { vm with mips }.demand = .done host'
            ∧ pool' = (pool.withHost h host').withVm v { vm with mips }) := by
  rw [updateVmMips]
  cases hv : pool.vms.get? v with
  | none => simp
  | some vm =>
    cases hm : vm.migrationTarget with
    | some t => simp [Vm.isMigrating, hm]
    | none =>
      cases hp : vm.host with
      | none => simp [Vm.isMigrating, hm, hp, @eq_comm _ pool']
      | some h =>
        cases hh : pool.hosts.get? h with
        | none => simp [Vm.isMigrating, hm, hp, hh]
        | some host =>
          simp [Vm.isMigrating, hm, hp, hh, Outcome.bind_eq_done_iff, @eq_comm _ pool']

end

/-! ### Operations and runs -/

/-- A change of the pool, with its arguments. -/
inductive Op (α : Type) where
  | addHost (spec : HostSpec α)
  | addVm (spec : VmSpec α)
  | removeVm (vm : VmId)
  | allocate (vm : VmId) (host : HostId)
  | release (vm : VmId)
  | startMigration (vm : VmId) (target : HostId)
  | finishMigration (vm : VmId)
  | cancelMigration (vm : VmId)
  | updateVmMips (vm : VmId) (mips : α)
  | evictHost (host : HostId)

/-- The pool after an operation, which is the same one if the operation is refused. -/
def settle {β : Type} (pool : Pool α) (after : β → Pool α) : Outcome Refusal β → Checked (Pool α)
  | .done value => .ok (after value)
  | .refused _ => .ok pool
  | .fault e => .error e

variable [Scalar α]

def Op.apply (pool : Pool α) : Op α → Checked (Pool α)
  | .addHost spec => Prod.snd <$> pool.addHost spec
  | .addVm spec => Prod.snd <$> pool.addVm spec
  | .removeVm v => .ok (((pool.removeVm v).toOption.map Prod.snd).getD pool)
  | .allocate v h => pool.settle id (pool.allocate v h)
  | .release v => .ok (((pool.release v).map Prod.snd).getD pool)
  | .startMigration v t => pool.settle id (pool.startMigration v t)
  | .finishMigration v => pool.settle Prod.snd (pool.finishMigration v)
  | .cancelMigration v => .ok ((pool.cancelMigration v).toOption.getD pool)
  | .updateVmMips v mips => pool.settle id (pool.updateVmMips v mips)
  | .evictHost h => .ok (pool.evictHost h).2

/-- Runs of admitted operations from one pool to another. -/
inductive Steps (admits : Op α → Prop) : Pool α → Pool α → Prop where
  | refl (pool : Pool α) : Steps admits pool pool
  | tail {start pool pool' : Pool α} {op : Op α} (run : Steps admits start pool) (ha : admits op)
      (h : op.apply pool = .ok pool') : Steps admits start pool'

/-- Some run of operations leads to the pool, starting without hosts and VMs. -/
def Reachable (pool : Pool α) : Prop := Steps (fun _ => True) empty pool

theorem Reachable.apply {pool pool' : Pool α} (hr : pool.Reachable) (op : Op α)
    (h : op.apply pool = .ok pool') : pool'.Reachable := Steps.tail hr trivial h

/-- The pool after operations that are applied one after the other. -/
def run (pool : Pool α) (ops : List (Op α)) : Checked (Pool α) :=
  ops.foldlM (fun pool op => op.apply pool) pool

theorem Steps.run {admits : Op α → Prop} {start between pool : Pool α} {ops : List (Op α)}
    (hs : Steps admits start between) (hops : ∀ op ∈ ops, admits op)
    (h : between.run ops = .ok pool) : Steps admits start pool := by
  induction ops generalizing between with
  | nil => exact Except.ok.inj h ▸ hs
  | cons op ops ih =>
    rw [Pool.run, List.foldlM_cons, Checked.bind_eq_ok_iff] at h
    obtain ⟨next, hop, hrest⟩ := h
    have hnext := hs.tail (hops op List.mem_cons_self) hop
    exact ih hnext (fun x hx => hops x (List.mem_cons_of_mem op hx)) hrest

theorem reachable_of_run {pool : Pool α} {ops : List (Op α)} (h : empty.run ops = .ok pool) :
    pool.Reachable := (Steps.refl empty).run (fun _ _ => trivial) h

/-! ### Changes -/

/-- An operation that is not refused. An eviction is a sequence of such changes. -/
inductive Change : Op α → Pool α → Pool α → Prop where
  | addHost {pool pool' : Pool α} {spec : HostSpec α} {id : HostId}
      (h : pool.addHost spec = .ok (id, pool')) : Change (.addHost spec) pool pool'
  | addVm {pool pool' : Pool α} {spec : VmSpec α} {id : VmId}
      (h : pool.addVm spec = .ok (id, pool')) : Change (.addVm spec) pool pool'
  | removeVm {pool pool' : Pool α} {v : VmId} {vm : Vm α}
      (h : pool.removeVm v = .ok (vm, pool')) : Change (.removeVm v) pool pool'
  | allocate {pool pool' : Pool α} {v : VmId} {host : HostId}
      (h : pool.allocate v host = .done pool') : Change (.allocate v host) pool pool'
  | release {pool pool' : Pool α} {v : VmId} {host : HostId}
      (h : pool.release v = some (host, pool')) : Change (.release v) pool pool'
  | startMigration {pool pool' : Pool α} {v : VmId} {t : HostId}
      (h : pool.startMigration v t = .done pool') : Change (.startMigration v t) pool pool'
  | finishMigration {pool pool' : Pool α} {v : VmId} {s : HostId}
      (h : pool.finishMigration v = .done (s, pool')) : Change (.finishMigration v) pool pool'
  | cancelMigration {pool pool' : Pool α} {v : VmId}
      (h : pool.cancelMigration v = .ok pool') : Change (.cancelMigration v) pool pool'
  | updateVmMips {pool pool' : Pool α} {v : VmId} {mips : α}
      (h : pool.updateVmMips v mips = .done pool') : Change (.updateVmMips v mips) pool pool'

omit [Scalar α] in
theorem settle_eq_ok {β : Type} {pool pool' : Pool α} {after : β → Pool α} {x : Outcome Refusal β}
    (h : pool.settle after x = .ok pool') :
    pool' = pool ∨ ∃ value, x = .done value ∧ pool' = after value := by
  cases x with
  | done value => exact .inr ⟨value, rfl, (Except.ok.inj h).symm⟩
  | refused reason => exact .inl (Except.ok.inj h).symm
  | fault e => cases h

section

variable {P : Pool α → Prop}
  (cancel : ∀ v pool pool', P pool → Change (.cancelMigration v) pool pool' → P pool')
  (release : ∀ v pool pool', P pool → Change (.release v) pool pool' → P pool')

include cancel in
theorem cancelMigration_keeps (vs : List VmId) {pool : Pool α} (hp : P pool) :
    P (vs.foldl (fun pool v => (pool.cancelMigration v).toOption.getD pool) pool) := by
  induction vs generalizing pool with
  | nil => exact hp
  | cons v vs ih =>
    rw [List.foldl_cons]
    cases hc : pool.cancelMigration v with
    | ok pool' => exact ih (cancel v pool pool' hp (.cancelMigration hc))
    | error e => exact ih hp

include release in
theorem release_keeps (vs : List VmId) {pool : Pool α} (hp : P pool) :
    P (vs.foldl (fun pool v => ((pool.release v).map Prod.snd).getD pool) pool) := by
  induction vs generalizing pool with
  | nil => exact hp
  | cons v vs ih =>
    rw [List.foldl_cons]
    cases hr : pool.release v with
    | some r => exact ih (release v pool r.2 hp (.release hr))
    | none => exact ih hp

include cancel release in
theorem evictHost_keeps {pool : Pool α} (hp : P pool) (h : HostId) : P (pool.evictHost h).2 := by
  rw [evictHost]
  split
  · exact hp
  · exact release_keeps release _ (cancelMigration_keeps cancel _ hp)

end

theorem Change.apply_eq_ok {op : Op α} {pool pool' : Pool α} (h : Change op pool pool') :
    op.apply pool = .ok pool' := by
  cases h with
  | addHost h => rw [Op.apply, h]; rfl
  | addVm h => rw [Op.apply, h]; rfl
  | removeVm h => rw [Op.apply, h]; rfl
  | allocate h => rw [Op.apply, h]; rfl
  | release h => rw [Op.apply, h]; rfl
  | startMigration h => rw [Op.apply, h]; rfl
  | finishMigration h => rw [Op.apply, h]; rfl
  | cancelMigration h => rw [Op.apply, h]; rfl
  | updateVmMips h => rw [Op.apply, h]; rfl

/-- An operation is refused, or changes the pool, or evicts a host. -/
theorem Op.apply_cases {op : Op α} {pool pool' : Pool α} (h : op.apply pool = .ok pool') :
    pool' = pool ∨ Change op pool pool'
      ∨ ∃ host, op = .evictHost host ∧ pool' = (pool.evictHost host).2 := by
  cases op with
  | addHost spec =>
    obtain ⟨r, hadd, rfl⟩ := (Checked.map_eq_ok_iff _ _ _).mp h
    exact .inr (.inl (.addHost hadd))
  | addVm spec =>
    obtain ⟨r, hadd, rfl⟩ := (Checked.map_eq_ok_iff _ _ _).mp h
    exact .inr (.inl (.addVm hadd))
  | removeVm v =>
    rw [apply, Except.ok.injEq] at h
    cases hremove : pool.removeVm v with
    | error e =>
      rw [hremove] at h
      exact .inl h.symm
    | ok r =>
      rw [hremove] at h
      exact h ▸ .inr (.inl (.removeVm hremove))
  | allocate v host =>
    rcases settle_eq_ok h with rfl | ⟨value, hdone, rfl⟩
    · exact .inl rfl
    · exact .inr (.inl (.allocate hdone))
  | release v =>
    rw [apply, Except.ok.injEq] at h
    cases hrelease : pool.release v with
    | none =>
      rw [hrelease] at h
      exact .inl h.symm
    | some r =>
      rw [hrelease] at h
      exact h ▸ .inr (.inl (.release hrelease))
  | startMigration v t =>
    rcases settle_eq_ok h with rfl | ⟨value, hdone, rfl⟩
    · exact .inl rfl
    · exact .inr (.inl (.startMigration hdone))
  | finishMigration v =>
    rcases settle_eq_ok h with rfl | ⟨value, hdone, rfl⟩
    · exact .inl rfl
    · exact .inr (.inl (.finishMigration hdone))
  | cancelMigration v =>
    rw [apply, Except.ok.injEq] at h
    cases hcancel : pool.cancelMigration v with
    | error e =>
      rw [hcancel] at h
      exact .inl h.symm
    | ok between =>
      rw [hcancel] at h
      exact h ▸ .inr (.inl (.cancelMigration hcancel))
  | updateVmMips v mips =>
    rcases settle_eq_ok h with rfl | ⟨value, hdone, rfl⟩
    · exact .inl rfl
    · exact .inr (.inl (.updateVmMips hdone))
  | evictHost host => exact .inr (.inr ⟨host, rfl, (Except.ok.inj h).symm⟩)

/-- What each change keeps is kept by an operation, also if it is refused. -/
theorem Op.apply_keeps {P : Pool α → Prop} {admits : Op α → Prop}
    (cancels : ∀ v, admits (.cancelMigration v)) (releases : ∀ v, admits (.release v))
    (keeps : ∀ op pool pool', admits op → P pool → Change op pool pool' → P pool')
    {op : Op α} {pool pool' : Pool α} (ha : admits op) (hp : P pool)
    (h : op.apply pool = .ok pool') : P pool' := by
  rcases apply_cases h with rfl | hchange | ⟨host, rfl, rfl⟩
  · exact hp
  · exact keeps op pool pool' ha hp hchange
  · exact evictHost_keeps (fun v _ _ => keeps _ _ _ (cancels v))
      (fun v _ _ => keeps _ _ _ (releases v)) hp host

/-- What holds at first and is kept by each admitted change holds after every run. -/
theorem Steps.invariant {P : Pool α → Prop} {admits : Op α → Prop}
    (cancels : ∀ v, admits (.cancelMigration v)) (releases : ∀ v, admits (.release v))
    (keeps : ∀ op pool pool', admits op → P pool → Change op pool pool' → P pool')
    {start pool : Pool α} (hs : P start) (h : Steps admits start pool) : P pool := by
  induction h with
  | refl => exact hs
  | tail _ ha hop ih => exact Op.apply_keeps cancels releases keeps ha ih hop

theorem Reachable.invariant {P : Pool α → Prop} (start : P empty)
    (keeps : ∀ op pool pool', P pool → Change op pool pool' → P pool') {pool : Pool α}
    (h : pool.Reachable) : P pool :=
  Steps.invariant (fun _ => trivial) (fun _ => trivial) (fun op a b _ => keeps op a b) start h

end Pool

end Datacenter
