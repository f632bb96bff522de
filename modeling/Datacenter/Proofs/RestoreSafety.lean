import Datacenter.Proofs.Recalling
import Datacenter.Proofs.PlanAtomicity

/-!
# Restorations that succeed

While a rejected plan is undone, each VM is where it was saved or nowhere, so no host has more than
it had. If no host had more than its capacity and the tolerance, everything that was evicted fits
again, in whatever order it is put back.

Main statements: `Restorable.putsBack`, `tryRestore_eq_ok` and `applyPlan_answers`.
-/

namespace Datacenter

namespace Pool

variable {α : Type} [Scalar α]

/-- The pool has been rearranged, and where a VM is, it was before. -/
structure Reverting (saved pool : Pool α) : Prop where
  steps : Steps Op.Rearranges saved pool
  within : ∀ v p q, pool.placement v = some p → saved.placement v = some q → p.Within q

/-- After the hosts of a rejected plan are evicted, no migration of the plan is left. -/
theorem reverting_of_rejected {saved between : Pool α} (own : saved.Ownership)
    {ms : List (Migration α)} {rejection : PlanRejection}
    (h : saved.startPlan ms = .ok (between, some rejection)) :
    Reverting saved (Ledger.evictAll between (planHosts ms).toList).2 := by
  have hsteps := startPlan_steps h
  refine ⟨hsteps.trans (Ledger.evictAll_steps _ _), fun v p q hp hq => ?_⟩
  rw [Ledger.evictAll_placement (own.rearranged hsteps), Option.map_eq_some_iff] at hp
  obtain ⟨now, hnow, rfl⟩ := hp
  obtain ⟨started, m, later, hms, hstarted, -⟩ := startPlan_rejected h
  have hplan := startPlan_started hstarted
  by_cases hv : ∃ x ∈ started, x.vm = v
  · obtain ⟨x, hx, rfl⟩ := hv
    obtain ⟨s, hbefore, hafter⟩ := hplan.planned x hx
    rw [hq, Option.some.injEq] at hbefore
    rw [hnow, Option.some.injEq] at hafter
    subst hbefore hafter
    -- The VM did not move before, and its reservation is on an evicted host.
    have hmem : x.target ∈ (planHosts ms).toList := by
      rw [Std.TreeSet.mem_toList, Std.TreeSet.mem_iff_contains, contains_planHosts_iff, hms]
      exact ⟨x, List.mem_append_left _ hx, .inr rfl⟩
    have hgone := Placement.not_isAround_foldl_without hmem ⟨some s, some x.target⟩
    have hwithin := (Placement.Within.refl ⟨some s, some x.target⟩).foldl_without
      (planHosts ms).toList
    refine ⟨hwithin.host, .inl ?_⟩
    rcases hwithin.target with hn | he
    · exact hn
    · exact absurd (.inr he) hgone
  · have hsame := hplan.others v fun x hx heq => hv ⟨x, hx, heq⟩
    rw [hnow, hq, Option.some.injEq] at hsame
    subst hsame
    exact (Placement.Within.refl now).foldl_without _

theorem Reverting.recalls {saved pool : Pool α} {M : Type} (hr : Reverting saved pool)
    (f : Resources α → M) : Recalls saved pool f where
  within v p hp := by
    obtain ⟨vm', hv', -⟩ := (placement_eq_some_iff _ _ _).mp hp
    obtain ⟨vm, hv, -⟩ := hr.steps.sameVms.get? hv'
    rw [placement_of_get? hv]
    exact hr.within v p _ hp (placement_of_get? hv)
  demand v vm vm' hv hv' := by
    obtain ⟨record, hrecord, -, hspec⟩ := hr.steps.sameVms.get? hv'
    rw [hv, Option.some.injEq] at hrecord
    rw [hrecord, demand_eq_of_toVmSpec_eq hspec]

/-! ### Room for what is put back -/

variable {K : Type} [ExactScalar K] {saved pool : Pool K}

/-- The pool is the work of operations that ask for no negative rates, and no host has more than its
capacity and the tolerance. -/
structure Restorable (saved : Pool K) : Prop where
  reached : Steps (Op.AsksFor (0 ≤ ·)) empty saved
  fits : saved.AllHosts fun host =>
    host.residentTotal.mips + host.incomingTotal.mips ≤ host.capacity.mips + Scalar.epsilon

namespace Restorable

theorem reachable (hs : Restorable saved) : saved.Reachable := hs.reached.reachable (.refl _)

variable (hs : Restorable saved) (hr : Reverting saved pool)

include hs hr

theorem shortage_eq_none {g : HostId} {host : Host K} (hh : pool.hosts.get? g = some host)
    {v : VmId} {vm : Vm K} {q : Placement} (hv : pool.vms.get? v = some vm)
    (hq : saved.placement v = some q)
    (hback : vm.host = none ∧ q.host = some g ∨ vm.migrationTarget = none ∧ q.target = some g) :
    host.shortage vm.demand = .ok none := by
  have hreached : Steps (Op.AsksFor (0 ≤ ·)) empty pool :=
    hs.reached.trans (hr.steps.mono fun _ hop => hop.asksFor _)
  have own := hs.reachable.ownership
  have own' := own.rearranged hr.steps
  have hbalanced := (hreached.reachable (.refl _)).balanced g host hh
  obtain ⟨former, hformer, -, hspec⟩ := hr.steps.sameHosts.get? hh
  have hbefore := hs.reachable.balanced g former hformer
  have hcapacity : host.capacity = former.capacity := by
    rw [Host.capacity, Host.capacity, Host.totalMips, Host.totalMips, hspec]
  obtain ⟨allocated, ha, hmips, hstock⟩ := hbalanced.allocated
  refine (Host.shortage_eq_none_iff _ _).mpr ⟨allocated, ha,
    (Resources.shortage_eq_none_iff _ _).mpr ⟨?_, fun k => ?_⟩⟩
  · -- Rates may take the tolerance, as they did when the pool was saved. Words may not.
    have hle := (hr.recalls fun d => d.mips).allocated_le own own' hs.reached.exact_mips.1 hh
      hformer (hreached.exact_mips.2 g host hh) (hs.reached.exact_mips.2 g former hformer) hv hq
      hback
    have hall := le_trans hle (hs.fits g former hformer)
    have hfree := Resources.isAmount_mips.le_sub host.capacity allocated
    rw [← hcapacity] at hall
    rw [hmips] at hfree
    rw [not_lt]
    linarith
  · have hle := (hr.recalls fun d => d.stock k).allocated_le own own'
      (fun _ _ _ => Nat.zero_le _) hh hformer (hbalanced.exact_stock k) (hbefore.exact_stock k) hv
      hq hback
    have hwithin := hbefore.within k
    rw [Resources.stock_sub, hstock, hcapacity]
    omega

omit hr in
/-- Nothing is short for what is put back. -/
theorem putsBack : PutsBack saved (fun _ => False) (Reverting saved) where
  reachable hr := hr.steps.reachable hs.reachable
  hosts hr hformer := by
    obtain ⟨host, hh, -⟩ := hr.steps.sameHosts.symm.get? hformer
    exact ⟨host, hh⟩
  known {pool v q} hr hq := by
    obtain ⟨record, hrecord, -⟩ := (placement_eq_some_iff _ _ _).mp hq
    obtain ⟨vm, hv, -⟩ := hr.steps.sameVms.symm.get? hrecord
    exact ⟨_, placement_of_get? hv, hr.within v _ q (placement_of_get? hv) hq⟩
  keeps {pool pool' v p q} hr hsteps hq hwithin hplaced := by
    refine ⟨hr.steps.trans hsteps, fun w p' q' hp' hq' => ?_⟩
    rw [hplaced] at hp'
    split at hp'
    · rename_i hw
      rw [hw, hq, Option.some.injEq] at hq'
      cases hp'
      exact hq' ▸ hwithin
    · exact hr.within w p' q' hp' hq'
  shortage hr hv hq hh hback hshort := by
    rw [hs.shortage_eq_none hr hh hv hq hback] at hshort
    cases hshort

theorem restoreEntries_eq_ok (toRestore : Std.TreeSet VmId) {entries : List SnapshotEntry}
    (hq : ∀ entry ∈ entries, saved.placement entry.vm = some entry.placement) :
    ∃ pool', Ledger.restoreEntries toRestore pool entries = .ok ⟨pool', none⟩ := by
  obtain ⟨⟨pool', failure⟩, hrestore, hanswers⟩ :=
    hs.putsBack.restoreEntries hs.reachable.ownership hr toRestore hq
  obtain ⟨rfl, -⟩ : failure = none ∧ Reverting saved pool' := by
    simpa [Restoration.Answers] using hanswers
  exact ⟨pool', hrestore⟩

omit hr in
/-- A plan that is rejected can be undone. -/
theorem tryRestore_eq_ok {between : Pool K} {ms : List (Migration K)} {rejection : PlanRejection}
    (h : saved.startPlan ms = .ok (between, some rejection)) :
    ∃ pool', Ledger.tryRestore ⟨some (.capture saved saved.vmIds)⟩ between
      (between.vmsAround (planHosts ms)) (planHosts ms).toList = .ok ⟨pool', none⟩ := by
  have own := hs.reachable.ownership
  have own' := own.rearranged (startPlan_steps h)
  rw [Ledger.tryRestore_eq own' _ (mem_vmsAround_of_isAround own' _)]
  refine hs.restoreEntries_eq_ok (reverting_of_rejected own h) _ fun entry he => ?_
  exact ((Snapshot.mem_capture_iff own _ entry).mp he).2

end Restorable

theorem startPlan_eq_ok {α : Type} [Scalar α] {pool : Pool α} (hr : pool.Reachable)
    (ms : List (Migration α)) : ∃ r, pool.startPlan ms = .ok r := by
  induction ms generalizing pool with
  | nil => exact ⟨_, rfl⟩
  | cons m rest ih =>
    rw [startPlan]
    cases hstart : pool.startMigration m.vm m.target with
    | done between => exact ih ((startMigration_steps hstart).reachable hr)
    | refused reason => exact ⟨_, rfl⟩
    | fault e => exact absurd hstart (startMigration_isSettled hr.balanced m.vm m.target e)

end Pool

/-! ### Plans are answered -/

namespace Simulation

variable {K π : Type} [ExactScalar K] [AllocationPolicy K π] [KeepsLedger K π]

/-- If no host has more than its capacity and the tolerance, every plan is accepted or rejected:
what a rejected plan evicts is always put back. -/
theorem applyPlan_answers {sim : Simulation K π} (hr : sim.Reachable (0 ≤ ·))
    (hfits : sim.pool.AllHosts fun host =>
      host.residentTotal.mips + host.incomingTotal.mips ≤ host.capacity.mips + Scalar.epsilon)
    (plan : List (Migration K)) :
    ∃ answer sim', (sim.applyPlan plan).result = .ok (answer, sim') := by
  have hs : sim.pool.Restorable := ⟨hr.pool_steps, hfits⟩
  obtain ⟨⟨between, rejection?⟩, hstart⟩ := Pool.startPlan_eq_ok hs.reachable plan
  cases rejection? with
  | none =>
    obtain ⟨sim', happly⟩ := applyPlan_eq_ok hstart fun m hm => by
      obtain ⟨s, hplaced, -⟩ := (Pool.startPlan_started hstart).planned m hm
      obtain ⟨vm, hv, -⟩ := (Pool.placement_eq_some_iff _ _ _).mp hplaced
      exact ⟨vm, hv⟩
    exact ⟨_, sim', happly⟩
  | some rejection =>
    obtain ⟨pool', hrestore⟩ := hs.tryRestore_eq_ok hstart
    rw [applyPlan_of_rejected hstart hrestore]
    exact ⟨_, _, rfl⟩

/-- Two hosts, and a VM that takes all of the first one and as much more as is tolerated. -/
def brimfulRun : List (Command ℚ) :=
  let host : HostSpec ℚ := ⟨"host", 1, 1000, 8192, 1000, 100000, .linear 200 (1 / 2)⟩
  [.addHost host, .submitVm ⟨"tenant", 1, 1000, 1024, 100, 1000⟩, .updateVmMips 0 (1000 + 1e-9),
    .addHost host]

def brimfulStart : Simulation ℚ (SingleThreshold ℚ) :=
  let thresholds : Thresholds ℚ := ⟨1, 3 / 10⟩
  create ⟨"datacenter", "SingleThreshold", thresholds, 30, 30, 3, false, 1 / 2, [], []⟩
    (.ofThresholds thresholds) 7

/-- The VM is to be moved twice. -/
def doubledPlan : List (Migration ℚ) :=
  let move : Migration ℚ := ⟨0, 0, 1, 7, .distribute, ⟨0, 0, 0⟩, ⟨0, 0, 0⟩, none⟩
  [move, move]

theorem doubledPlan_answered : ∃ sim sim', (brimfulStart.run brimfulRun).result = .ok sim
    ∧ sim.Reachable (0 ≤ ·)
    ∧ (sim.pool.AllHosts fun host =>
      host.residentTotal.mips + host.incomingTotal.mips ≤ host.capacity.mips + Scalar.epsilon)
    ∧ (sim.applyPlan doubledPlan).result = .ok (.error ⟨0, 1, .vmMigrating⟩, sim') := by
  have hrun : ((brimfulStart.run brimfulRun).result.toOption.any fun sim =>
      (sim.pool.hosts.values.all fun host => decide (host.residentTotal.mips
        + host.incomingTotal.mips ≤ host.capacity.mips + Scalar.epsilon))
      && (sim.applyPlan doubledPlan).result.toOption.any fun answer =>
        answer.1 == .error ⟨0, 1, .vmMigrating⟩) = true := by
    decide +kernel
  obtain ⟨sim, hsim, htest⟩ := Checked.eq_ok_of_any hrun
  rw [Bool.and_eq_true, List.all_eq_true] at htest
  have hrates : ∀ command ∈ brimfulRun, command.AsksFor (0 ≤ ·) := by
    simp only [brimfulRun, List.forall_mem_cons, Command.AsksFor]
    exact ⟨trivial, by norm_num, by norm_num, trivial, fun _ h => nomatch h⟩
  have hr : sim.Reachable (0 ≤ ·) := ⟨_, _, _, _, hrates, hsim⟩
  have hfits : sim.pool.AllHosts fun host =>
      host.residentTotal.mips + host.incomingTotal.mips ≤ host.capacity.mips + Scalar.epsilon :=
    fun h host hh => decide_eq_true_iff.mp (htest.1 host ((Table.mem_values_iff _ _).mpr ⟨h, hh⟩))
  obtain ⟨answer, sim', happly⟩ := applyPlan_answers hr hfits doubledPlan
  have hanswer := htest.2
  rw [happly] at hanswer
  have hrejected : answer = .error ⟨0, 1, .vmMigrating⟩ := beq_iff_eq.mp hanswer
  subst hrejected
  exact ⟨sim, sim', hsim, hr, hfits, happly⟩

/-- A VM on a host of the same size is resized twice. Each time it grows by less than the tolerance,
which is granted anew on top of what the VM has. -/
def stretchedRun : List (Command Float) :=
  [.addHost ⟨"host", 1, 1000, 8192, 1000, 100000, .linear 200 0.5⟩,
    .submitVm ⟨"tenant", 1, 1000, 1024, 100, 1000⟩, .updateVmMips 0 1000.0000000009,
    .updateVmMips 0 1000.0000000018]

def stretchedStart : Simulation Float (SingleThreshold Float) :=
  let thresholds : Thresholds Float := ⟨1, 0.3⟩
  create ⟨"datacenter", "SingleThreshold", thresholds, 30, 30, 3, false, 0.5, [], []⟩
    (.ofThresholds thresholds) 7

/-- A plan for an unknown host is rejected, and the VM that is evicted does not fit again. -/
theorem stretchedRun_not_restored : ∃ sim, (stretchedStart.run stretchedRun).result = .ok sim
    ∧ sim.Reachable (fun mips => 0 ≤ mips ∧ mips.isFinite = true)
    ∧ (sim.applyPlan [planned 0 0 7]).result
      = .error (.restoreFailed (.refused 0 0 (.notEnough .cpu))) := by
  have hrun : ((stretchedStart.run stretchedRun).result.toOption.any fun sim =>
      match (sim.applyPlan [planned 0 0 7]).result with
      | .error e => e == .restoreFailed (.refused 0 0 (.notEnough .cpu))
      | .ok _ => false) = true := by
    decide +kernel
  obtain ⟨sim, hsim, htest⟩ := Checked.eq_ok_of_any hrun
  have hrates : ∀ command ∈ stretchedRun,
      command.AsksFor fun mips => 0 ≤ mips ∧ mips.isFinite = true := by
    simp only [stretchedRun, List.forall_mem_cons, Command.AsksFor]
    exact ⟨trivial, by decide +kernel, by decide +kernel, by decide +kernel, fun _ h => nomatch h⟩
  refine ⟨sim, hsim, ⟨_, _, _, _, hrates, hsim⟩, ?_⟩
  cases hresult : (sim.applyPlan [planned 0 0 7]).result with
  | ok r =>
    rw [hresult] at htest
    cases htest
  | error e =>
    rw [hresult] at htest
    rw [beq_iff_eq.mp htest]

end Simulation

end Datacenter
