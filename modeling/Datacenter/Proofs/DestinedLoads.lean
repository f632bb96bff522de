import Mathlib.Algebra.BigOperators.Group.List.Basic
import Datacenter.Proofs.Destinations
import Datacenter.Proofs.ExactTotals

/-!
# Planning loads at destinations

The planning load of a host is the sum of what the VMs demand that end up there. So a migration
counts at its target from the start: to land changes no planning load, and to start or to cancel it
moves one demand from a host to another.

Main statement: `planningLoad_counts`.
-/

namespace Datacenter

theorem Vm.destination_of_target {α : Type} {vm : Vm α} {t : HostId}
    (ht : vm.migrationTarget = some t) : vm.destination = some t := by
  rw [destination, ht, Option.some_or]

theorem Vm.destination_of_staying {α : Type} {vm : Vm α} (ht : vm.migrationTarget = none) :
    vm.destination = vm.host := by
  rw [destination, ht, Option.none_or]

theorem Host.Exact.carries {α M : Type} [Scalar α] [AddCommMonoid M] [PartialOrder M]
    [IsOrderedAddMonoid M] {host : Host α} {f : Resources α → M} (he : host.Exact f)
    (hf : Resources.IsAmount f) : host.Carries f := by
  have hc : host.Covers f := ⟨le_of_eq he.resident.total.symm, le_of_eq he.incoming.total.symm⟩
  exact hc.carries hf he.resident.nonneg he.incoming.nonneg

namespace Pool

variable {α M : Type} [Scalar α] [AddCommMonoid M] {pool pool' : Pool α} {f : Resources α → M}

/-! ### Loads as sums -/

/-- Each host has the demands of the VMs that end up there as its planning load. -/
def Gathers (pool : Pool α) (f : Resources α → M) : Prop :=
  ∀ h ∈ pool.hostIds, ∃ load, pool.planningLoad h = .ok load
    ∧ f load = pool.sumAt f (fun _ vm => vm.destination) h

theorem Reachable.gathers [PartialOrder M] [IsOrderedCancelAddMonoid M] (hf : Resources.IsAmount f)
    (hr : pool.Reachable) (he : pool.AllHosts fun host => host.Exact f) : pool.Gathers f := by
  intro h hmem
  obtain ⟨host, hh⟩ := (Table.mem_keys_iff _ _).mp hmem
  have hexact := he h host hh
  obtain ⟨allocated, ha, -⟩ := (hr.balanced h host hh).allocated
  obtain ⟨load, hl⟩ := hr.ownership.planningLoad_eq_ok hh ha
  refine ⟨load, hl, ?_⟩
  have hload := planningLoad_exact hf hh (hexact.carries hf) ha hl
  rw [hf.add ha, hexact.resident.total, hexact.incoming.total,
    ← hr.ownership.destined_add_outgoing f hh] at hload
  exact add_right_cancel hload

/-- A VM that is placed anew takes its demand along. -/
theorem sumAt_destination_insert {v : VmId} {vm vm' : Vm α} (hv : pool.vms.get? v = some vm)
    (hvms : pool'.vms = pool.vms.insert v vm') (hd : vm'.demand = vm.demand) (h : HostId) :
    pool'.sumAt f (fun _ vm => vm.destination) h
        + (if vm.destination = some h then f vm.demand else 0)
      = pool.sumAt f (fun _ vm => vm.destination) h
        + if vm'.destination = some h then f vm.demand else 0 := by
  unfold sumAt
  rw [hvms, Table.total_insert_known
    (fun _ vm => if vm.destination = some h then f vm.demand else 0) hv vm', hd]

/-! ### Loads after an operation -/

/-- Planning loads are what they were, but for an amount that has gone from one host to another. -/
def Shifts (pool pool' : Pool α) (f : Resources α → M) (source target : HostId)
    (d : Resources α) : Prop :=
  ∀ h load, pool.planningLoad h = .ok load → ∃ load', pool'.planningLoad h = .ok load'
    ∧ f load' + (if h = source then f d else 0) = f load + if h = target then f d else 0

theorem mem_hostIds_of_planningLoad {h : HostId} {load : Resources α}
    (hl : pool.planningLoad h = .ok load) : h ∈ pool.hostIds := by
  rw [planningLoad, Checked.bind_eq_ok_iff] at hl
  obtain ⟨host, hh, -⟩ := hl
  exact (Table.mem_keys_iff _ _).mpr ⟨host, (host_eq_ok_iff _ _ _).mp hh⟩

namespace Gathers

theorem load_eq (hg : pool.Gathers f) {h : HostId} {load : Resources α}
    (hl : pool.planningLoad h = .ok load) :
    f load = pool.sumAt f (fun _ vm => vm.destination) h := by
  obtain ⟨found, hfound, heq⟩ := hg h (mem_hostIds_of_planningLoad hl)
  rw [hl, Except.ok.injEq] at hfound
  exact hfound ▸ heq

theorem shifts (hg : pool.Gathers f) (hg' : pool'.Gathers f) (hs : pool.SameHosts pool') {v : VmId}
    {vm vm' : Vm α} {s t : HostId} (hv : pool.vms.get? v = some vm)
    (hfrom : vm.destination = some s) (hto : vm'.destination = some t)
    (hd : vm'.demand = vm.demand) (hvms : pool'.vms = pool.vms.insert v vm') :
    pool.Shifts pool' f s t vm.demand := by
  intro h load hl
  have hmem : h ∈ pool'.hostIds := by
    obtain ⟨host, hh⟩ := (Table.mem_keys_iff _ _).mp (mem_hostIds_of_planningLoad hl)
    obtain ⟨host', hh', -⟩ := hs.symm.get? hh
    exact (Table.mem_keys_iff _ _).mpr ⟨host', hh'⟩
  obtain ⟨load', hl', heq⟩ := hg' h hmem
  refine ⟨load', hl', ?_⟩
  have hinsert := sumAt_destination_insert (f := f) hv hvms hd h
  rw [hfrom, hto, ← heq, ← hg.load_eq hl] at hinsert
  simpa only [Option.some.injEq, eq_comm] using hinsert

end Gathers

/-! ### The loads of all hosts -/

/-- The demands of all VMs that have a host. -/
def placed (pool : Pool α) (f : Resources α → M) : M :=
  pool.vms.total fun _ vm => if vm.host.isSome then f vm.demand else 0

theorem Ownership.destination_cases (own : pool.Ownership) {v : VmId} {vm : Vm α}
    (hv : pool.vms.get? v = some vm) :
    (vm.host = none ∧ vm.destination = none)
      ∨ vm.host.isSome = true ∧ ∃ h ∈ pool.hostIds, vm.destination = some h := by
  cases hm : vm.migrationTarget with
  | some t =>
    have hhost : vm.host.isSome = true := by
      by_contra hnone
      rw [own.migrationTarget_eq_none hv (by simpa using hnone)] at hm
      cases hm
    obtain ⟨target, ht⟩ := own.exists_target hv hm
    exact .inr ⟨hhost, t, (Table.mem_keys_iff _ _).mpr ⟨target, ht⟩, Vm.destination_of_target hm⟩
  | none =>
    rw [Vm.destination_of_staying hm]
    cases hp : vm.host with
    | none => exact .inl ⟨rfl, rfl⟩
    | some h =>
      obtain ⟨host, hh⟩ := own.exists_host hv hp
      exact .inr ⟨rfl, h, (Table.mem_keys_iff _ _).mpr ⟨host, hh⟩, rfl⟩

theorem sum_destined (hosts : List HostId) :
    (hosts.map (pool.sumAt f fun _ vm => vm.destination)).sum = pool.vms.total fun _ vm =>
      (hosts.map fun h => if vm.destination = some h then f vm.demand else 0).sum := by
  induction hosts with
  | nil =>
    rw [List.map_nil, List.sum_nil]
    exact (List.sum_eq_zero (by simp)).symm
  | cons h hosts ih =>
    simp only [List.map_cons, List.sum_cons]
    rw [ih, Table.total_add]
    rfl

theorem Ownership.sum_destined (own : pool.Ownership) :
    (pool.hostIds.map (pool.sumAt f fun _ vm => vm.destination)).sum = pool.placed f := by
  rw [Pool.sum_destined]
  refine Table.total_congr fun v vm hv => ?_
  rcases own.destination_cases hv with ⟨hp, hd⟩ | ⟨hp, g, hmem, hd⟩
  · rw [hp, hd]
    exact List.sum_eq_zero (by simp)
  · -- No other host than the destination counts the VM, and that one counts it once.
    have hcount : pool.hostIds.count g = 1 := List.count_eq_one_of_mem pool.hosts.nodup_keys hmem
    rw [List.sum_map_eq_nsmul_single g, hcount, one_nsmul, hd, if_pos rfl, if_pos hp]
    intro h hne _
    rw [hd, if_neg fun heq => hne (Option.some.inj heq).symm]

theorem Gathers.total (hg : pool.Gathers f) (own : pool.Ownership) :
    ∃ loads, pool.hostIds.mapM pool.planningLoad = .ok loads
      ∧ (loads.map f).sum = pool.placed f := by
  obtain ⟨loads, hloads, hmap⟩ := Checked.mapM_eq_ok hg
  exact ⟨loads, hloads, by rw [hmap, own.sum_destined]⟩

/-! ### Migrations -/

/-- Planning loads count each placed VM once, at its destination, and follow its migration. -/
structure CountsAtDestinations (pool : Pool α) (f : Resources α → M) : Prop where
  load : pool.Gathers f
  finish : ∀ v s pool', pool.finishMigration v = .done (s, pool') →
    ∀ h load, pool.planningLoad h = .ok load →
      ∃ load', pool'.planningLoad h = .ok load' ∧ f load' = f load
  start : ∀ v t pool', pool.startMigration v t = .done pool' →
    ∃ vm s, pool.vms.get? v = some vm ∧ vm.host = some s ∧ s ≠ t
      ∧ pool.Shifts pool' f s t vm.demand
  cancel : ∀ v pool', pool.cancelMigration v = .ok pool' →
    ∃ vm s t, pool.vms.get? v = some vm ∧ vm.host = some s ∧ vm.migrationTarget = some t ∧ s ≠ t
      ∧ pool.Shifts pool' f t s vm.demand
  total : ∃ loads, pool.hostIds.mapM pool.planningLoad = .ok loads
    ∧ (loads.map f).sum = pool.placed f

theorem Gathers.counts [PartialOrder M] [IsOrderedCancelAddMonoid M] (hg : pool.Gathers f)
    (own : pool.Ownership)
    (hnext : ∀ (op : Op α) (pool' : Pool α), op.Rearranges → Change op pool pool' →
      pool'.Gathers f ∧ pool.SameHosts pool') :
    pool.CountsAtDestinations f where
  load := hg
  finish v s pool' hdone h load hl := by
    obtain ⟨hg', hs⟩ := hnext (.finishMigration v) pool' trivial (.finishMigration hdone)
    obtain ⟨vm, t, target, target', hv, -, ht, -, -, rfl⟩ :=
      (finishMigration_eq_done_iff _ _ _ _).mp hdone
    have hland : (vm.runningOn t).destination = some t := rfl
    have hshifts := hg.shifts hg' hs hv (Vm.destination_of_target ht) hland rfl (by simp)
    obtain ⟨load', hl', heq⟩ := hshifts h load hl
    exact ⟨load', hl', add_right_cancel heq⟩
  start v t pool' hdone := by
    obtain ⟨hg', hhosts⟩ := hnext (.startMigration v t) pool' trivial (.startMigration hdone)
    obtain ⟨vm, s, target, target', hv, hs, hm, hne, -, -, rfl⟩ :=
      (startMigration_eq_done_iff _ _ _ _).mp hdone
    have hfrom : vm.destination = some s := (Vm.destination_of_staying hm).trans hs
    have hto : (vm.movingTo t).destination = some t := rfl
    exact ⟨vm, s, hv, hs, hne, hg.shifts hg' hhosts hv hfrom hto rfl (by simp)⟩
  cancel v pool' hok := by
    obtain ⟨hg', hhosts⟩ := hnext (.cancelMigration v) pool' trivial (.cancelMigration hok)
    obtain ⟨vm, t, hv, ht, rfl⟩ := (cancelMigration_eq_ok_iff _ _ _).mp hok
    obtain ⟨s, hs, hne⟩ := own.moving v vm t hv ht
    have hto : vm.staying.destination = some s := (Vm.destination_of_staying rfl).trans hs
    refine ⟨vm, s, t, hv, hs, ht, hne, ?_⟩
    exact hg.shifts hg' hhosts hv (Vm.destination_of_target ht) hto rfl (by simp)
  total := hg.total own

theorem Reachable.counts_stock (hr : pool.Reachable) (k : Stock) :
    pool.CountsAtDestinations fun d => d.stock k := by
  have hgathers : ∀ pool : Pool α, pool.Reachable → pool.Gathers fun d => d.stock k :=
    fun pool hr => hr.gathers (Resources.isAmount_stock k) fun h host hh =>
      (hr.balanced h host hh).exact_stock k
  refine (hgathers pool hr).counts hr.ownership fun op pool' hop hc => ?_
  exact ⟨hgathers pool' (hr.apply op hc.apply_eq_ok), hc.sameHosts hop⟩

theorem ReachableWith.counts_mips {K : Type} [ExactScalar K] {pool : Pool K}
    (hr : pool.ReachableWith NonNegative) : pool.CountsAtDestinations fun d => d.mips := by
  have hgathers : ∀ pool : Pool K, pool.ReachableWith NonNegative →
      pool.Gathers fun d => d.mips :=
    fun pool hr => hr.reachable.gathers Resources.isAmount_mips fun h host hh =>
      (hr.allExact h host hh).mips
  refine (hgathers pool hr).counts hr.reachable.ownership fun op pool' hop hc => ?_
  have hn := hr.holds.change (hop.asksFor _) hc
  exact ⟨hgathers pool' (hr.tail hc.apply_eq_ok hn), hc.sameHosts hop⟩

/-- The planning loads of a reachable pool count each placed VM once, at its destination. In compute
rates this takes that no VM has ever asked for a negative rate. -/
theorem planningLoad_counts :
    (∀ (α : Type) [Scalar α] (pool : Pool α), pool.Reachable →
      ∀ k : Stock, pool.CountsAtDestinations fun d => d.stock k)
    ∧ ∀ (K : Type) [ExactScalar K] (pool : Pool K), pool.ReachableWith NonNegative →
      pool.CountsAtDestinations fun d => d.mips :=
  ⟨fun _ _ _ hr k => hr.counts_stock k, fun _ _ _ hr => hr.counts_mips⟩

/-- Three VMs on two hosts, of which one moves. A fourth VM has no host. -/
def destinedRun : List (Op ℚ) :=
  let host : HostSpec ℚ := ⟨"host", 4, 1000, 8192, 1000, 100000, .linear 200 (1 / 2)⟩
  let vm (mips : ℚ) : VmSpec ℚ := ⟨"tenant", 2, mips, 1024, 100, 1000⟩
  [.addHost host, .addHost host, .addVm (vm 500), .addVm (vm (1501 / 3)), .addVm (vm 250),
    .addVm (vm 750), .allocate 0 0, .allocate 1 0, .allocate 2 1, .startMigration 1 1]

theorem destinedRun_counts : ∃ pool : Pool ℚ, empty.run destinedRun = .ok pool ∧ pool.Reachable
    ∧ pool.ReachableWith NonNegative
    ∧ (∀ k : Stock, pool.CountsAtDestinations fun d => d.stock k)
    ∧ (pool.CountsAtDestinations fun d => d.mips)
    ∧ (pool.hostIds.map fun h => (pool.planningLoad h).toOption.map fun load =>
        (load.mips, load.ram.toNat)) = [some (1000, 1024), some (1501 * 2 / 3 + 500, 2048)]
    ∧ (pool.placed fun d => d.mips) = 1501 * 2 / 3 + 1500 := by
  have hrun : (empty.run destinedRun).toOption.any (fun pool =>
      (pool.hostIds.map fun h => (pool.planningLoad h).toOption.map fun load =>
        (load.mips, load.ram.toNat)) == [some (1000, 1024), some (1501 * 2 / 3 + 500, 2048)]
      && (pool.placed fun d => d.mips) == 1501 * 2 / 3 + 1500) = true := by
    decide +kernel
  obtain ⟨pool, hp, htest⟩ := Checked.eq_ok_of_any hrun
  rw [Bool.and_eq_true, beq_iff_eq, beq_iff_eq] at htest
  have hops : ∀ op ∈ destinedRun, op.AsksFor (0 ≤ ·) := by
    simp only [destinedRun, List.forall_mem_cons, Op.AsksFor]
    norm_num
  have hr := ((Steps.refl empty).run hops hp).reachableWith
  exact ⟨pool, hp, hr.reachable, hr, planningLoad_counts.1 ℚ pool hr.reachable,
    planningLoad_counts.2 ℚ pool hr, htest.1, htest.2⟩

/-- One VM asks for less than nothing, leaves after another one, and is removed. -/
def indebtedRun : List (Op ℚ) :=
  let vm (mips : ℚ) : VmSpec ℚ := ⟨"tenant", 1, mips, 1024, 100, 1000⟩
  [.addHost ⟨"host", 4, 1000, 8192, 1000, 100000, .linear 200 (1 / 2)⟩, .addVm (vm 100),
    .addVm (vm (-200)), .allocate 0 0, .allocate 1 0, .release 0, .release 1, .removeVm 1]

-- The VM that is left asks for a positive rate, but the negative one of the past is not
-- forgotten: the total of the empty host stays above zero.
example : ((empty.run indebtedRun).toOption.bind fun pool =>
    (pool.planningLoad 0).toOption.map fun load =>
      (pool.vms.values.map (·.demand.mips), load.mips,
        pool.sumAt (·.mips) (fun _ vm => vm.destination) 0))
      = some ([100], 200, 0) := by
  decide +kernel

end Pool

end Datacenter
