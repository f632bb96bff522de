import Datacenter.Proofs.Capacity
import Datacenter.Proofs.Edits
import Datacenter.Proofs.Patches
import Datacenter.Proofs.Rearrangements

/-!
# Independent operations

An operation on a VM looks at the record of the VM and at the hosts that it involves: the ones that
the record names, and the one that it is given. It answers and writes the same in every pool that
looks the same there, and writes nothing else. Operations on different VMs that involve different
hosts do not notice each other.

Main statements: `isLocal` and `exists_effect`.
-/

namespace Datacenter

theorem Outcome.map_bind {ε β γ δ : Type} (f : γ → δ) (x : Outcome ε β) (g : β → Outcome ε γ) :
    f <$> (x >>= g) = x >>= fun b => f <$> g b := by
  cases x <;> rfl

namespace Pool

variable {α : Type}

/-- An operation on one VM, with its arguments. -/
inductive VmOp (α : Type) where
  | allocate (vm : VmId) (host : HostId)
  | release (vm : VmId)
  | startMigration (vm : VmId) (target : HostId)
  | finishMigration (vm : VmId)
  | cancelMigration (vm : VmId)
  | updateVmMips (vm : VmId) (mips : α)

namespace VmOp

def vm : VmOp α → VmId
  | allocate v _ | release v | startMigration v _ | finishMigration v | cancelMigration v
  | updateVmMips v _ => v

/-- The host that the operation is given. -/
def argument : VmOp α → Option HostId
  | allocate _ h | startMigration _ h => some h
  | release _ | finishMigration _ | cancelMigration _ | updateVmMips _ _ => none

def toOp : VmOp α → Op α
  | allocate v h => .allocate v h
  | release v => .release v
  | startMigration v t => .startMigration v t
  | finishMigration v => .finishMigration v
  | cancelMigration v => .cancelMigration v
  | updateVmMips v mips => .updateVmMips v mips

/-- The operation is given the host, or the VM runs on it or moves to it. -/
def Involves (op : VmOp α) (pool : Pool α) (h : HostId) : Prop :=
  op.argument = some h
    ∨ ∃ vm, pool.vms.get? op.vm = some vm ∧ (vm.host = some h ∨ vm.migrationTarget = some h)

/-- The pools agree on all that the operation may look at. -/
structure SameAround (op : VmOp α) (pool pool' : Pool α) : Prop where
  vm : pool'.vms.get? op.vm = pool.vms.get? op.vm
  host : ∀ h, op.Involves pool h → pool'.hosts.get? h = pool.hosts.get? h

theorem SameAround.refl (op : VmOp α) (pool : Pool α) : op.SameAround pool pool :=
  ⟨rfl, fun _ _ => rfl⟩

variable [Scalar α]

/-- The host that the operation answers with, if it answers with one, and the pool after it. -/
def attempt (pool : Pool α) : VmOp α → Outcome Refusal (Option HostId × Pool α)
  | allocate v h => Prod.mk none <$> pool.allocate v h
  | release v =>
    match pool.release v with
    | some (h, pool') => .done (some h, pool')
    | none => .done (none, pool)
  | startMigration v t => Prod.mk none <$> pool.startMigration v t
  | finishMigration v => Prod.map some id <$> pool.finishMigration v
  | cancelMigration v => Prod.mk none <$> Outcome.ofExcept (pool.cancelMigration v)
  | updateVmMips v mips => Prod.mk none <$> pool.updateVmMips v mips

/-- The answer of the operation, and the pool after it, which is the same one if it is refused. -/
def run (op : VmOp α) (pool : Pool α) : Checked (Except Refusal (Option HostId) × Pool α) :=
  match op.attempt pool with
  | .done (answer, pool') => .ok (.ok answer, pool')
  | .refused reason => .ok (.error reason, pool)
  | .fault e => .error e

theorem apply_toOp (op : VmOp α) (pool : Pool α) :
    op.toOp.apply pool = Prod.snd <$> op.run pool := by
  cases op with
  | allocate v h =>
    simp only [toOp, Op.apply, run, attempt]
    cases pool.allocate v h <;> rfl
  | release v =>
    simp only [toOp, Op.apply, run, attempt]
    cases pool.release v <;> rfl
  | startMigration v t =>
    simp only [toOp, Op.apply, run, attempt]
    cases pool.startMigration v t <;> rfl
  | finishMigration v =>
    simp only [toOp, Op.apply, run, attempt]
    cases pool.finishMigration v <;> rfl
  | cancelMigration v =>
    simp only [toOp, Op.apply, run, attempt]
    cases pool.cancelMigration v <;> rfl
  | updateVmMips v mips =>
    simp only [toOp, Op.apply, run, attempt]
    cases pool.updateVmMips v mips <;> rfl

theorem exists_run (op : VmOp α) {pool : Pool α} (hb : pool.AllHosts Host.Balanced) :
    ∃ r, op.run pool = .ok r := by
  cases hrun : op.run pool with
  | ok r => exact ⟨r, rfl⟩
  | error e =>
    have herror : op.toOp.apply pool = .error e := by
      rw [apply_toOp, hrun]
      rfl
    cases op <;> exact (apply_eq_error hb herror).elim

theorem reachable_run {op : VmOp α} {pool : Pool α} (hr : pool.Reachable)
    {r : Except Refusal (Option HostId) × Pool α} (h : op.run pool = .ok r) :
    r.2.Reachable := by
  refine hr.apply op.toOp ?_
  rw [apply_toOp, h]
  rfl

/-! ### Operations are local -/

/-- In each pool that looks the same around the operation, it comes to the same: it answers the same
and makes the same patch, which is one of the VM and of involved hosts, or it is refused or faults
likewise. -/
def IsLocal (op : VmOp α) (pool : Pool α) : Prop :=
  ∃ x : Outcome Refusal (Option HostId × Patch α),
    (∀ pool', pool'.Ownership → op.SameAround pool pool' →
      op.attempt pool' = (fun e => (e.1, e.2.apply pool')) <$> x)
    ∧ ∀ e, x = .done e → e.2.Within op.vm (op.Involves pool)

section

variable {op : VmOp α} {pool : Pool α}

theorem isLocal_of_refused (reason : Refusal)
    (h : ∀ pool', op.SameAround pool pool' → op.attempt pool' = .refused reason) :
    op.IsLocal pool :=
  ⟨.refused reason, fun pool' _ hs => h pool' hs, fun _ he => by cases he⟩

/-- What is tried first does not depend on the pool, and decides about the patch. -/
theorem isLocal_of_bind {β : Type} (first : Outcome Refusal β) (answer : Option HostId)
    {p : β → Patch α} (hp : ∀ b, (p b).Within op.vm (op.Involves pool))
    (h : ∀ pool', pool'.Ownership → op.SameAround pool pool' →
      op.attempt pool' = first >>= fun b => .done (answer, (p b).apply pool')) :
    op.IsLocal pool := by
  refine ⟨(fun b => (answer, p b)) <$> first, fun pool' own hs => ?_, fun e he => ?_⟩
  · rw [h pool' own hs]
    cases first <;> rfl
  · cases first with
    | done b =>
      cases he
      exact hp b
    | refused reason => cases he
    | fault fault => cases he

theorem isLocal_of_done (answer : Option HostId) {p : Patch α}
    (hp : p.Within op.vm (op.Involves pool))
    (h : ∀ pool', pool'.Ownership → op.SameAround pool pool' →
      op.attempt pool' = .done (answer, p.apply pool')) : op.IsLocal pool :=
  isLocal_of_bind (.done ()) answer (fun _ => hp) h

/-- One host decides, and is written together with the record. -/
theorem isLocal_of_host {h : HostId} {host : Host α} {vm : Vm α}
    (hv : pool.vms.get? op.vm = some vm) (hh : pool.hosts.get? h = some host)
    (hinvolved : op.Involves pool h) (first : Outcome Refusal (Host α)) (vm' : Vm α)
    (hfirst : ∀ pool', pool'.vms.get? op.vm = some vm → pool'.hosts.get? h = some host →
      op.attempt pool' = first >>= fun host' =>
        .done (none, (pool'.withHost h host').withVm op.vm vm')) : op.IsLocal pool := by
  refine isLocal_of_bind first none
    (fun host' => (Patch.within_onHost hinvolved fun _ => host').andThen
      (Patch.within_onVm fun _ => vm')) fun pool' _ hs => ?_
  have hv' := hs.vm.trans hv
  have hh' := (hs.host h hinvolved).trans hh
  simp only [hfirst pool' hv' hh', withHost_withVm_eq_apply hh' hv']

end

/-! One lemma for each operation: the cases are those of the operation. -/

theorem isLocal_of_unknown {op : VmOp α} {pool : Pool α} (hv : pool.vms.get? op.vm = none) :
    op.IsLocal pool := by
  cases op with
  | release v =>
    refine isLocal_of_done none Patch.within_keep fun pool' _ hs => ?_
    have hv' : pool'.vms.get? v = none := hs.vm.trans hv
    simp [attempt, Pool.release, hv', Patch.apply_keep]
  | _ =>
    refine isLocal_of_refused .vmNotFound fun pool' hs => ?_
    have hv' := hs.vm.trans hv
    simp only [vm] at hv'
    simp [attempt, Pool.allocate, Pool.startMigration, Pool.finishMigration, Pool.cancelMigration,
      Pool.updateVmMips, Outcome.ofExcept, hv']

section

variable {pool : Pool α} {v : VmId} {vm : Vm α} (hv : pool.vms.get? v = some vm)

include hv

theorem isLocal_allocate (h : HostId) : (allocate v h).IsLocal pool := by
  have hinvolved : (allocate v h).Involves pool h := .inl rfl
  cases hp : vm.host with
  | some g =>
    refine isLocal_of_refused .alreadyAllocated fun pool' hs => ?_
    have hv' : pool'.vms.get? v = _ := hs.vm.trans hv
    simp [attempt, Pool.allocate, hv', hp]
  | none =>
    cases hh : pool.hosts.get? h with
    | none =>
      refine isLocal_of_refused .hostNotFound fun pool' hs => ?_
      have hv' : pool'.vms.get? v = _ := hs.vm.trans hv
      simp [attempt, Pool.allocate, hv', hp, (hs.host h hinvolved).trans hh]
    | some host =>
      refine isLocal_of_host hv hh hinvolved (host.allocate v vm.demand)
        { vm with host := some h, beingInstantiated := false } fun pool' hv' hh' => ?_
      rw [VmOp.vm] at hv'
      simp [attempt, Pool.allocate, hv', hp, hh', Outcome.map_bind, VmOp.vm]

theorem isLocal_release : (release v).IsLocal pool := by
  cases hp : vm.host with
  | none =>
    refine isLocal_of_done none Patch.within_keep fun pool' _ hs => ?_
    have hv' : pool'.vms.get? v = _ := hs.vm.trans hv
    simp [attempt, Pool.release, hv', hp, Patch.apply_keep]
  | some s =>
    have hsource : (release v).Involves pool s := .inr ⟨vm, hv, .inl hp⟩
    have htarget : ∀ t, vm.migrationTarget = some t → (release v).Involves pool t :=
      fun t ht => .inr ⟨vm, hv, .inr ht⟩
    refine isLocal_of_done (some s)
      (p := ((unreserve v vm).andThen (.onHost s (·.release v))).andThen
        (.onVm v fun _ => vm.unplaced))
      (((within_unreserve htarget).andThen (Patch.within_onHost hsource _)).andThen
        (Patch.within_onVm _)) fun pool' own hs => ?_
    have hv' : pool'.vms.get? v = _ := hs.vm.trans hv
    obtain ⟨last, hlast⟩ := own.release_eq_some hv' hp
    obtain ⟨former, hformer, -, rfl⟩ := release_eq_some hlast
    rw [hv', Option.some.injEq] at hformer
    subst hformer
    rw [attempt, hlast, ← Patch.apply_apply, ← Patch.apply_apply, ← withoutReservation_eq_apply,
      ← updateHost_eq_apply, withVm_eq_apply (by simpa using hv')]

theorem isLocal_startMigration (t : HostId) : (startMigration v t).IsLocal pool := by
  have hinvolved : (startMigration v t).Involves pool t := .inl rfl
  cases hp : vm.host with
  | none =>
    refine isLocal_of_refused .notAllocated fun pool' hs => ?_
    have hv' : pool'.vms.get? v = _ := hs.vm.trans hv
    simp [attempt, Pool.startMigration, hv', hp]
  | some s =>
    by_cases hm : vm.isMigrating = true
    · refine isLocal_of_refused .vmMigrating fun pool' hs => ?_
      have hv' : pool'.vms.get? v = _ := hs.vm.trans hv
      simp [attempt, Pool.startMigration, hv', hp, hm]
    · by_cases hst : s = t
      · refine isLocal_of_refused .sameHost fun pool' hs => ?_
        have hv' : pool'.vms.get? v = _ := hs.vm.trans hv
        simp [attempt, Pool.startMigration, hv', hp, hm, hst]
      · cases hh : pool.hosts.get? t with
        | none =>
          refine isLocal_of_refused .hostNotFound fun pool' hs => ?_
          have hv' : pool'.vms.get? v = _ := hs.vm.trans hv
          simp [attempt, Pool.startMigration, hv', hp, hm, hst, (hs.host t hinvolved).trans hh]
        | some target =>
          refine isLocal_of_host hv hh hinvolved (target.reserve v vm.demand)
            (vm.movingTo t) fun pool' hv' hh' => ?_
          rw [VmOp.vm] at hv'
          simp [attempt, Pool.startMigration, hv', hp, hm, hst, hh', Outcome.map_bind, VmOp.vm]

theorem isLocal_finishMigration : (finishMigration v).IsLocal pool := by
  cases hp : vm.host with
  | none =>
    refine isLocal_of_refused .notAllocated fun pool' hs => ?_
    have hv' : pool'.vms.get? v = _ := hs.vm.trans hv
    simp [attempt, Pool.finishMigration, hv', hp]
  | some s =>
    cases hm : vm.migrationTarget with
    | none =>
      refine isLocal_of_refused .notAllocated fun pool' hs => ?_
      have hv' : pool'.vms.get? v = _ := hs.vm.trans hv
      simp [attempt, Pool.finishMigration, hv', hp, hm]
    | some t =>
      have hsource : (finishMigration v).Involves pool s := .inr ⟨vm, hv, .inl hp⟩
      have htarget : (finishMigration v).Involves pool t := .inr ⟨vm, hv, .inr hm⟩
      cases hh : pool.hosts.get? t with
      | none =>
        refine isLocal_of_refused .hostNotFound fun pool' hs => ?_
        have hv' : pool'.vms.get? v = _ := hs.vm.trans hv
        simp [attempt, Pool.finishMigration, hv', hp, hm, (hs.host t htarget).trans hh]
      | some target =>
        refine isLocal_of_bind (target.land v) (some s)
          (p := fun target' => ((Patch.onHost t fun _ => target').andThen
            (.onHost s (·.release v))).andThen (.onVm v fun _ => vm.runningOn t))
          (fun _ => ((Patch.within_onHost htarget _).andThen
            (Patch.within_onHost hsource _)).andThen (Patch.within_onVm _)) fun pool' _ hs => ?_
        have hv' : pool'.vms.get? v = _ := hs.vm.trans hv
        have hh' := (hs.host t htarget).trans hh
        have hwrite : ∀ target',
            ((pool'.withHost t target').updateHost s (·.release v)).withVm v (vm.runningOn t)
              = (((Patch.onHost t fun _ => target').andThen (.onHost s (·.release v))).andThen
                (.onVm v fun _ => vm.runningOn t)).apply pool' := by
          intro target'
          rw [← Patch.apply_apply, ← Patch.apply_apply, ← withHost_eq_apply hh',
            ← updateHost_eq_apply, withVm_eq_apply (by simpa using hv')]
        simp [attempt, Pool.finishMigration, hv', hp, hm, hh', Outcome.map_bind, hwrite]

theorem isLocal_cancelMigration : (cancelMigration v).IsLocal pool := by
  cases hm : vm.migrationTarget with
  | none =>
    refine isLocal_of_refused .notAllocated fun pool' hs => ?_
    have hv' : pool'.vms.get? v = _ := hs.vm.trans hv
    simp [attempt, Pool.cancelMigration, hv', hm, Outcome.ofExcept]
  | some t =>
    have htarget : (cancelMigration v).Involves pool t := .inr ⟨vm, hv, .inr hm⟩
    refine isLocal_of_done none
      (p := (Patch.onHost t (·.cancel v)).andThen (.onVm v fun _ => vm.staying))
      ((Patch.within_onHost htarget _).andThen (Patch.within_onVm _)) fun pool' _ hs => ?_
    have hv' : pool'.vms.get? v = _ := hs.vm.trans hv
    have hsame : (pool'.updateHost t (·.cancel v)).vms.get? v = some vm := by simpa using hv'
    rw [← Patch.apply_apply, ← updateHost_eq_apply, ← withVm_eq_apply hsame]
    simp [attempt, Pool.cancelMigration, hv', hm, Outcome.ofExcept]

theorem isLocal_updateVmMips (mips : α) : (updateVmMips v mips).IsLocal pool := by
  by_cases hm : vm.isMigrating = true
  · refine isLocal_of_refused .vmMigrating fun pool' hs => ?_
    have hv' : pool'.vms.get? v = _ := hs.vm.trans hv
    simp [attempt, Pool.updateVmMips, hv', hm]
  · cases hp : vm.host with
    | none =>
      refine isLocal_of_done none (p := .onVm v fun _ => { vm with mips })
        (Patch.within_onVm _) fun pool' _ hs => ?_
      have hv' : pool'.vms.get? v = _ := hs.vm.trans hv
      rw [← withVm_eq_apply hv']
      simp [attempt, Pool.updateVmMips, hv', hm, hp]
    | some h =>
      have hinvolved : (updateVmMips v mips).Involves pool h := .inr ⟨vm, hv, .inl hp⟩
      cases hh : pool.hosts.get? h with
      | none =>
        refine isLocal_of_refused .hostNotFound fun pool' hs => ?_
        have hv' : pool'.vms.get? v = _ := hs.vm.trans hv
        simp [attempt, Pool.updateVmMips, hv', hm, hp, (hs.host h hinvolved).trans hh]
      | some host =>
        refine isLocal_of_host hv hh hinvolved (host.resize v { vm with mips }.demand)
          { vm with mips } fun pool' hv' hh' => ?_
        rw [VmOp.vm] at hv'
        simp [attempt, Pool.updateVmMips, hv', hm, hp, hh', Outcome.map_bind, VmOp.vm]

end

theorem isLocal (op : VmOp α) (pool : Pool α) : op.IsLocal pool := by
  cases hv : pool.vms.get? op.vm with
  | none => exact isLocal_of_unknown hv
  | some vm =>
    cases op with
    | allocate v h => exact isLocal_allocate hv h
    | release v => exact isLocal_release hv
    | startMigration v t => exact isLocal_startMigration hv t
    | finishMigration v => exact isLocal_finishMigration hv
    | cancelMigration v => exact isLocal_cancelMigration hv
    | updateVmMips v mips => exact isLocal_updateVmMips hv mips

/-! ### Effects -/

/-- An operation that does not fault answers and patches the same in each pool that looks the same
around it. -/
theorem exists_effect {op : VmOp α} {pool : Pool α} (own : pool.Ownership)
    {r : Except Refusal (Option HostId) × Pool α} (hrun : op.run pool = .ok r) :
    ∃ p : Patch α, p.Within op.vm (op.Involves pool) ∧ r.2 = p.apply pool
      ∧ ∀ pool', pool'.Ownership → op.SameAround pool pool' →
        op.run pool' = .ok (r.1, p.apply pool') := by
  obtain ⟨x, hx, hwithin⟩ := op.isLocal pool
  rw [run, hx pool own (.refl op pool)] at hrun
  cases x with
  | done e =>
    cases hrun
    refine ⟨e.2, hwithin e rfl, rfl, fun pool' own' hs => ?_⟩
    rw [run, hx pool' own' hs]
    rfl
  | refused reason =>
    cases hrun
    refine ⟨.keep, Patch.within_keep, (Patch.apply_keep pool).symm, fun pool' own' hs => ?_⟩
    rw [run, hx pool' own' hs, Patch.apply_keep]
    rfl
  | fault e => cases hrun

omit [Scalar α] in
/-- What is written for another VM and other hosts goes unnoticed. -/
theorem sameAround_of_within {a b : VmOp α} {pool : Pool α} {p : Patch α} (hne : a.vm ≠ b.vm)
    (hdisjoint : ∀ h, ¬(a.Involves pool h ∧ b.Involves pool h))
    (hp : p.Within b.vm (b.Involves pool)) : a.SameAround pool (p.apply pool) :=
  ⟨hp.get?_vms hne pool, fun h hh => hp.get?_hosts (fun hb => hdisjoint h ⟨hh, hb⟩) pool⟩

/-- An operation on a VM does not fault. It leaves the records of other VMs as they are, and all
hosts but the ones that the VM's record names and the one that it is given. Two operations on
different VMs that involve no common host give the same answers and end in the same pool in either
order. -/
theorem operations_commute {pool : Pool α} (hr : pool.Reachable) :
    (∀ op : VmOp α, ∃ answer pool', op.run pool = .ok (answer, pool')
      ∧ (∀ w, w ≠ op.vm → pool'.vms.get? w = pool.vms.get? w)
      ∧ (∀ h, ¬op.Involves pool h → pool'.hosts.get? h = pool.hosts.get? h)
      ∧ pool'.vmIds = pool.vmIds ∧ pool'.hostIds = pool.hostIds
      ∧ pool'.nextVm = pool.nextVm ∧ pool'.nextHost = pool.nextHost)
    ∧ ∀ a b : VmOp α, a.vm ≠ b.vm → (∀ h, ¬(a.Involves pool h ∧ b.Involves pool h)) →
      ∃ answerA answerB afterA afterB last,
        a.run pool = .ok (answerA, afterA) ∧ b.run afterA = .ok (answerB, last)
        ∧ b.run pool = .ok (answerB, afterB) ∧ a.run afterB = .ok (answerA, last) := by
  refine ⟨fun op => ?_, fun a b hne hdisjoint => ?_⟩
  · obtain ⟨⟨answer, pool'⟩, hrun⟩ := op.exists_run hr.balanced
    obtain ⟨p, hp, heq, -⟩ := exists_effect hr.ownership hrun
    obtain rfl : pool' = p.apply pool := heq
    exact ⟨answer, p.apply pool, hrun, fun w hw => hp.get?_vms hw pool,
      fun h hh => hp.get?_hosts hh pool, p.vmIds_apply pool, p.hostIds_apply pool, rfl, rfl⟩
  · obtain ⟨⟨answerA, afterA⟩, ha⟩ := a.exists_run hr.balanced
    obtain ⟨⟨answerB, afterB⟩, hb⟩ := b.exists_run hr.balanced
    obtain ⟨p, hp, hpA, hlocalA⟩ := exists_effect hr.ownership ha
    obtain ⟨q, hq, hqB, hlocalB⟩ := exists_effect hr.ownership hb
    obtain rfl : afterA = p.apply pool := hpA
    obtain rfl : afterB = q.apply pool := hqB
    have hdisjoint' : ∀ h, ¬(b.Involves pool h ∧ a.Involves pool h) :=
      fun h hh => hdisjoint h hh.symm
    refine ⟨answerA, answerB, _, _, q.apply (p.apply pool), ha, ?_, hb, ?_⟩
    · exact hlocalB _ (reachable_run hr ha).ownership (sameAround_of_within hne.symm hdisjoint' hp)
    · rw [Patch.apply_comm hp hq hne hdisjoint]
      exact hlocalA _ (reachable_run hr hb).ownership (sameAround_of_within hne hdisjoint hq)

/-- One VM moves from the first host to the second one, another one runs on the third one. -/
def apartRun : List (Op Float) :=
  let host : HostSpec Float := ⟨"host", 4, 1000, 8192, 1000, 100000, .linear 200 0.5⟩
  let vm : VmSpec Float := ⟨"tenant", 2, 500, 1024, 100, 1000⟩
  [.addHost host, .addHost host, .addHost host, .addHost host, .addVm vm, .addVm vm,
    .allocate 0 0, .startMigration 0 1, .allocate 1 2]

/-- The first VM lands before or after the second one departs. -/
theorem apartRun_commutes : ∃ pool afterA afterB last : Pool Float,
    empty.run apartRun = .ok pool
    ∧ (finishMigration 0).run pool = .ok (.ok (some 0), afterA)
    ∧ (startMigration 1 3).run afterA = .ok (.ok none, last)
    ∧ (startMigration 1 3).run pool = .ok (.ok none, afterB)
    ∧ (finishMigration 0).run afterB = .ok (.ok (some 0), last) := by
  have hrun : (empty.run apartRun).toOption.any (fun pool =>
      ((pool.vms.get? 0).any fun vm => vm.host == some 0 && vm.migrationTarget == some 1)
      && ((pool.vms.get? 1).any fun vm => vm.host == some 2 && vm.migrationTarget == none)
      && (((finishMigration 0).run pool).toOption.any fun r => r.1.toOption == some (some 0))
      && (((startMigration 1 3).run pool).toOption.any fun r => r.1.toOption == some none))
      = true := by
    decide +kernel
  obtain ⟨pool, hp, htest⟩ := Checked.eq_ok_of_any hrun
  simp only [Bool.and_eq_true] at htest
  obtain ⟨⟨⟨hvm0, hvm1⟩, hfinish⟩, hstart⟩ := htest
  simp only [Option.any_eq_true, Bool.and_eq_true, beq_iff_eq] at hvm0 hvm1
  obtain ⟨vm0, hv0, hs0, ht0⟩ := hvm0
  obtain ⟨vm1, hv1, hs1, ht1⟩ := hvm1
  obtain ⟨⟨answerA, afterA⟩, hA, hfinished⟩ := Checked.eq_ok_of_any hfinish
  obtain ⟨⟨answerB, afterB⟩, hB, hstarted⟩ := Checked.eq_ok_of_any hstart
  obtain rfl : answerA = .ok (some 0) := by cases answerA <;> simp_all [Except.toOption]
  obtain rfl : answerB = .ok none := by cases answerB <;> simp_all [Except.toOption]
  have hfirst : ∀ h, (finishMigration 0).Involves pool h → h = 0 ∨ h = 1 := by
    rintro h (harg | ⟨vm, hv, hh⟩)
    · cases harg
    · rw [VmOp.vm, hv0, Option.some.injEq] at hv
      simpa [← hv, hs0, ht0, eq_comm] using hh
  have hsecond : ∀ h, (startMigration 1 3).Involves pool h → h = 3 ∨ h = 2 := by
    rintro h (harg | ⟨vm, hv, hh⟩)
    · cases harg
      exact .inl rfl
    · rw [VmOp.vm, hv1, Option.some.injEq] at hv
      simpa [← hv, hs1, ht1, eq_comm] using Or.inr hh
  have hdisjoint : ∀ h, ¬((finishMigration 0).Involves pool h
      ∧ (startMigration 1 3).Involves pool h) := by
    rintro h ⟨ha, hb⟩
    rcases hfirst h ha with rfl | rfl <;> exact absurd (hsecond _ hb) (by decide)
  obtain ⟨-, hcommute⟩ := operations_commute (reachable_of_run hp)
  obtain ⟨a, b, afterA', afterB', last, ha, hab, hb, hba⟩ :=
    hcommute (finishMigration 0) (startMigration 1 3) (by decide) hdisjoint
  rw [hA] at ha
  rw [hB] at hb
  cases ha
  cases hb
  exact ⟨pool, afterA, afterB, last, hp, hA, hab, hB, hba⟩

end VmOp

end Pool

end Datacenter
