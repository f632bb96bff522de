import Datacenter.Proofs.Burdens
import Datacenter.Proofs.Charges
import Datacenter.Proofs.PlanStart
import Datacenter.Proofs.Selection
import Datacenter.Proofs.Waiting

/-!
# Trying again in vain

A step tries each waiting VM once. One that is not placed was refused by all hosts, and what the
step does after that only adds to their load: it places VMs that come later in the queue, and starts
the migrations of a plan, none of which is rejected. So no VM waits that could run somewhere.

Main statements: `InVain.retry`, `optimize_heavier` and `none_waits_needlessly`.
-/

namespace Datacenter

/-! ### Hosts -/

variable {K : Type} [ExactScalar K]

/-- Consumptions, and what they can grow by, are smaller than the largest number. -/
def PowerModel.Moderate (m : PowerModel K) : Prop :=
  ∀ u, m.draw u < Scalar.largest ∧ ∀ w, m.draw u - m.draw w < Scalar.largest

theorem PowerModel.moderate_of_nonneg {m : PowerModel K} (hnonneg : ∀ u, 0 ≤ m.draw u)
    (hlt : ∀ u, m.draw u < Scalar.largest) : m.Moderate := by
  intro u
  refine ⟨hlt u, fun w => ?_⟩
  have hw := hnonneg w
  have hu := hlt u
  linarith

/-- Such hosts can be used: no utilization divides by zero, and the consumption is moderate. -/
structure HostSpec.Usable (spec : HostSpec K) : Prop where
  mips : 0 < Scalar.ofNat spec.cores * spec.mipsPerCore
  ram : 0 < spec.ram
  power : spec.powerModel.Moderate

theorem HostSpec.usable_of_nonneg {spec : HostSpec K}
    (hmips : 0 < Scalar.ofNat spec.cores * spec.mipsPerCore) (hram : 0 < spec.ram)
    (hdraw : ∀ u, 0 ≤ spec.powerModel.draw u ∧ spec.powerModel.draw u < Scalar.largest) :
    spec.Usable :=
  ⟨hmips, hram, PowerModel.moderate_of_nonneg (fun u => (hdraw u).1) fun u => (hdraw u).2⟩

theorem HostSpec.Usable.growthWith_lt {host : Host K} (h : host.toHostSpec.Usable)
    (allocated demand : Resources K) :
    Selector.growthWith host allocated demand < Scalar.largest := by
  rw [Selector.growthWith]
  obtain ⟨hdraw, hgrowth⟩ := h.power ((allocated.mips + demand.mips) / host.totalMips)
  split
  · rw [sub_zero]
    exact hdraw
  · exact hgrowth _

namespace Simulation

variable {sim sim' : Simulation K (SingleThreshold K)} {v : VmId}

/-- The pool is the work of operations that ask for no negative rates, and all hosts can be used. -/
structure Sound (sim : Simulation K (SingleThreshold K)) : Prop where
  reached : Pool.Steps (Pool.Op.AsksFor (0 ≤ ·)) Pool.empty sim.pool
  usable : sim.pool.AllHosts fun host => host.toHostSpec.Usable

namespace Sound

theorem reachable (h : sim.Sound) : sim.pool.Reachable := h.reached.reachable (.refl _)

theorem nonNegative (h : sim.Sound) : sim.pool.NonNegative := h.reached.exact_mips.1

theorem of_sameHosts (h : sim.Sound) (hsame : sim.pool.SameHosts sim'.pool)
    (hsteps : Pool.Steps (Pool.Op.AsksFor (0 ≤ ·)) sim.pool sim'.pool) : sim'.Sound := by
  refine ⟨h.reached.trans hsteps, fun g host' hh' => ?_⟩
  obtain ⟨host, hh, -, hspec⟩ := hsame.get? hh'
  rw [hspec]
  exact h.usable g host hh

theorem of_heavier (h : sim.Sound) (hheavier : sim.pool.Heavier sim'.pool)
    (hsteps : Pool.Steps (Pool.Op.AsksFor (0 ≤ ·)) sim.pool sim'.pool) : sim'.Sound := by
  refine ⟨h.reached.trans hsteps, fun g host' hh' => ?_⟩
  obtain ⟨host, hh, hmore⟩ := hheavier.hosts g host' hh'
  rw [hmore.same.2]
  exact h.usable g host hh

end Sound

/-! ### Waiting in vain -/

/-- No host makes an offer for any VM that waits and runs nowhere. -/
def InVain (sim : Simulation K (SingleThreshold K)) : Prop :=
  ∀ v ∈ sim.pending.toList, ∀ vm, sim.pool.vms.get? v = some vm → vm.host = none →
    sim.pool.AllHosts fun host =>
      Selector.offer (Selector.ceilingOf ⟨sim.policy.thresholds.upper⟩ vm) host vm.demand = .ok none

theorem Sound.selectHost_eq_none_iff (h : sim.Sound) {vm : Vm K}
    (hv : sim.pool.vms.get? v = some vm) (hidle : vm.host = none) :
    sim.policy.selectHost sim.pool v = .ok none
      ↔ sim.pool.AllHosts fun host =>
        Selector.offer (Selector.ceilingOf ⟨sim.policy.thresholds.upper⟩ vm) host vm.demand
          = .ok none :=
  Selector.selectAmong_eq_none_iff _ h.reachable hv hidle fun g host hh allocated =>
    (h.usable g host hh).growthWith_lt allocated vm.demand

/-- More load changes nothing about it. -/
theorem InVain.heavier (h : sim.InVain) (hsound : sim.Sound) (hsound' : sim'.Sound)
    (hheavier : sim.pool.Heavier sim'.pool) (hpending : sim'.pending = sim.pending)
    (hthresholds : sim'.policy.thresholds = sim.policy.thresholds) : sim'.InVain := by
  intro v hv vm hrecord hidle g host' hh'
  rw [hpending] at hv
  obtain ⟨host, hh, hmore⟩ := hheavier.hosts g host' hh'
  have hnone := h v hv vm (hheavier.idle v vm hrecord hidle) hidle g host hh
  have hbalanced := hsound.reachable.balanced g host hh
  have hbalanced' := hsound'.reachable.balanced g host' hh'
  obtain ⟨allocated, ha, -⟩ := hbalanced.allocated
  obtain ⟨allocated', ha', -⟩ := hbalanced'.allocated
  have hrefuses := (Selector.offer_eq_none_iff hbalanced ha).mp hnone
  rw [hthresholds]
  refine (Selector.offer_eq_none_iff hbalanced' ha').mpr ?_
  exact hrefuses.heavier (hsound.usable g host hh).mips hmore ha ha'

/-- A VM that waits on has been refused by all hosts, or it runs already. -/
theorem InVain.retry (h : sim.InVain) (hsound : sim.Sound)
    (hretry : (sim.retry v).result = .ok sim') : sim'.Sound ∧ sim'.InVain := by
  have hsteps : Pool.Steps (Pool.Op.AsksFor (0 ≤ ·)) sim.pool sim'.pool :=
    ((traces_retry sim v).moves hretry).pool_steps
  rw [Simulation.retry] at hretry
  split at hretry
  · cases hretry
    exact ⟨hsound, h⟩
  · simp only [Logged.result_bind, Checked.bind_eq_ok_iff] at hretry
    obtain ⟨⟨answer, next⟩, hplace, hretry⟩ := hretry
    cases answer with
    | ok host =>
      cases hretry
      rcases placeVm_cases hplace with ⟨_, pool, -, hallocate, rfl⟩ | ⟨error, hanswer, -⟩
      · have hheavier := Pool.Heavier.allocate hsound.nonNegative hallocate
        have hsound' : ({ sim with pool }.meterPower).Sound := hsound.of_heavier hheavier hsteps
        exact ⟨hsound', h.heavier hsound hsound' hheavier rfl rfl⟩
      · cases hanswer
    | error error =>
      cases hretry
      obtain ⟨hrefused, rfl⟩ := placeVm_eq_error hplace
      refine ⟨⟨hsound.reached, hsound.usable⟩, fun w hw vm hrecord hidle => ?_⟩
      rw [pending_wait, List.mem_append, List.mem_singleton] at hw
      by_cases hwv : w = v
      · subst hwv
        have hnone := SingleThreshold.selectHost_of_refused hsound.reachable hrecord hidle hrefused
        exact (hsound.selectHost_eq_none_iff hrecord hidle).mp hnone
      · exact h w (hw.resolve_right hwv) vm hrecord hidle

theorem inVain_of_retryPending (hsound : sim.Sound)
    (h : sim.retryPending.result = .ok sim') : sim'.Sound ∧ sim'.InVain := by
  have hstart : ({ sim with pending := .empty } : Simulation K (SingleThreshold K)).InVain :=
    fun _ hv => absurd hv List.not_mem_nil
  refine Logged.fold_invariant (P := fun last => last.Sound ∧ last.InVain)
    ⟨⟨hsound.reached, hsound.usable⟩, hstart⟩ ?_ h
  intro state v next _ hstate hnext
  exact hstate.2.retry hstate.1 hnext

/-! ### Steps -/

theorem landUntil_sameHosts {α π : Type} [Scalar α] {sim sim' : Simulation α π} {time : α}
    (h : (sim.landUntil time).result = .ok sim') : sim.pool.SameHosts sim'.pool := by
  rw [landUntil_eq] at h
  refine Logged.fold_invariant (P := fun last => sim.pool.SameHosts last.pool)
    (Pool.SameHosts.refl sim.pool) ?_ h
  intro state f next _ hstate hnext
  obtain ⟨between, -, -, hsame, rfl⟩ := land_ends hnext
  exact hstate.trans hsame

/-- The policy after a plan, which may have saved placements. -/
theorem policy_of_applyPlan {α π : Type} [Scalar α] [AllocationPolicy α π]
    {sim sim' : Simulation α π} {plan : List (Migration α)} {answer : Except PlanRejection Nat}
    (h : (sim.applyPlan plan).result = .ok (answer, sim')) :
    sim'.policy = sim.policy
      ∨ sim'.policy = AllocationPolicy.save sim.policy sim.pool sim.pool.vmIds := by
  rcases applyPlan_parts h with ⟨-, -, rfl⟩ | ⟨pool, last, -, hlast, -, rfl⟩ |
    ⟨_, _, pool, -, -, -, rfl⟩
  · exact .inl rfl
  · rw [fold_launch_eq hlast]
    exact .inr rfl
  · exact .inr rfl

/-- The plan of a pass can be carried out, which only adds to what hosts carry. -/
theorem optimize_heavier (hsound : sim.Sound) {started : Nat}
    (h : sim.optimize.result = .ok (started, sim')) :
    sim.pool.Heavier sim'.pool ∧ sim'.pending = sim.pending
      ∧ sim'.policy.thresholds = sim.policy.thresholds := by
  obtain ⟨next, monitoring, rfl, rfl | ⟨-, plan, policy, answer, hplan, happly⟩⟩ :=
    optimize_cases h
  · exact ⟨.refl _, rfl, rfl⟩
  · obtain ⟨-, rfl⟩ := SingleThreshold.plan_of_optimize hplan
    obtain ⟨-, pool', hstart⟩ := Planner.startPlan_of_optimize hsound.reachable hplan
    have hthresholds : next.policy.thresholds = sim.policy.thresholds := by
      rcases policy_of_applyPlan happly with hp | hp
      · rw [hp]
      · rw [hp]
        rfl
    rcases applyPlan_effect happly with rfl | ⟨policy, pool, flights, n, hpool, rfl⟩ |
      ⟨policy, middle, pool, rejection, hrejected, -, -⟩
    · exact ⟨.refl _, rfl, rfl⟩
    · exact ⟨.startPlan hsound.nonNegative hpool, rfl, hthresholds⟩
    · have hsame := hstart.symm.trans hrejected
      simp at hsame

theorem inVain_of_step (hsound : sim.Sound) (h : sim.step.result = .ok sim') :
    sim'.Sound ∧ sim'.InVain := by
  obtain ⟨landed, retried, last, hlanded, hretried, hlast, rfl⟩ := step_cases h
  have hsteps : Pool.Steps (Pool.Op.AsksFor (0 ≤ ·)) sim.pool landed.pool :=
    ((traces_landUntil sim _).moves hlanded).pool_steps
  have hlandedSound : landed.Sound := hsound.of_sameHosts (landUntil_sameHosts hlanded) hsteps
  have hready : ({ landed with time := sim.time + sim.config.stepInterval } :
      Simulation K (SingleThreshold K)).Sound := ⟨hlandedSound.reached, hlandedSound.usable⟩
  obtain ⟨hretriedSound, hvain⟩ := inVain_of_retryPending hready hretried
  rcases hlast with rfl | ⟨started, hoptimize⟩
  · exact ⟨⟨hretriedSound.reached, hretriedSound.usable⟩, hvain⟩
  · obtain ⟨hheavier, hpending, hthresholds⟩ := optimize_heavier hretriedSound hoptimize
    have hmore : Pool.Steps (Pool.Op.AsksFor (0 ≤ ·)) retried.pool last.pool :=
      ((traces_optimize retried).moves hoptimize).pool_steps
    have hend : last.meterPower.Sound := hretriedSound.of_heavier hheavier hmore
    exact ⟨hend, hvain.heavier hretriedSound hend hheavier hpending hthresholds⟩

/-! ### The order of the queue -/

variable {α π : Type} [Scalar α] [AllocationPolicy α π] [KeepsLedger α π]

theorem Queued.pairwise {sim sim' : Simulation α π} (h : sim.Queued) {command : Command α}
    (hobey : (sim.obey command).result = .ok sim')
    (hpairwise : sim.pending.toList.Pairwise (· < ·)) :
    sim'.pending.toList.Pairwise (· < ·) := by
  rw [(h.obey hobey).1]
  have hfilter : ∀ p : VmId → Bool, (sim.pending.toList.filter p).Pairwise (· < ·) :=
    fun p => hpairwise.filter p
  cases command with
  | submitVm spec =>
    rw [queueAfter, List.pairwise_append]
    refine ⟨hpairwise, (List.pairwise_singleton _ _).filter _, fun v hv w hw => ?_⟩
    -- The new VM has a larger id than all VMs of the pool, the waiting ones among them.
    obtain ⟨vm, hget⟩ : ∃ vm, sim.pool.vms.get? v = some vm := by
      have hknown := h.waits.ne_none hv
      rw [Pool.runs?, ne_eq, Option.map_eq_none_iff] at hknown
      exact Option.ne_none_iff_exists'.mp hknown
    have hw' := List.mem_singleton.mp (List.mem_of_mem_filter hw)
    rw [hw']
    exact (h.reachable.ownership.vm_id v vm hget).2
  | releaseVm v => exact hfilter _
  | step => exact hfilter _
  | addHost spec => exact hpairwise
  | placeVm v => exact hpairwise
  | updateVmMips v mips => exact hpairwise
  | applyPlan plan => exact hpairwise
  | optimize => exact hpairwise

/-- VMs wait in the order of their ids, which is that of their submission. -/
theorem pending_pairwise {config : Config α} {policy : π} {id : Nat} {commands : List (Command α)}
    {sim : Simulation α π} (h : ((create config policy id).run commands).result = .ok sim) :
    sim.pending.toList.Pairwise (· < ·) := by
  refine (run_invariant (P := fun last => last.Queued ∧ last.pending.toList.Pairwise (· < ·))
    ⟨queued_create config policy id, .nil⟩ ?_ h).2
  intro before command after state next _ _ hstate hnext
  obtain ⟨hqueued, hpairwise⟩ := hstate
  exact ⟨(hqueued.obey hnext).2, hqueued.pairwise hnext hpairwise⟩

/-! ### Runs -/

/-- What is true of the specification of each host that is added is true of all hosts. -/
theorem specs_of_run {π : Type} [AllocationPolicy K π] [KeepsLedger K π] {config : Config K}
    {policy : π} {id : Nat} {commands : List (Command K)} {sim : Simulation K π}
    {P : HostSpec K → Prop} (hspecs : ∀ spec, .addHost spec ∈ commands → P spec)
    (h : ((create config policy id).run commands).result = .ok sim) :
    sim.pool.AllHosts fun host => P host.toHostSpec := by
  have hnone : (create config policy id).pool.AllHosts fun host => P host.toHostSpec :=
    fun g host hg => (nomatch hg)
  refine run_invariant (P := fun last => last.pool.AllHosts fun host => P host.toHostSpec)
    hnone ?_ h
  intro before command after state next hcommands _ hstate hnext
  have hkept : state.pool.SameHosts next.pool →
      next.pool.AllHosts fun host => P host.toHostSpec := by
    intro hsame g host' hg'
    obtain ⟨host, hg, -, hspec⟩ := hsame.get? hg'
    rw [hspec]
    exact hstate g host hg
  rcases obey_effect hnext with ⟨-, hstep⟩ | ⟨-, ⟨spec, host, hadded, hadd⟩ | hinstant⟩
  · obtain ⟨landed, last, hlanded, hend, rfl⟩ := step_ends hstep
    exact hkept ((landUntil_sameHosts hlanded).trans hend.hosts)
  · obtain ⟨pool, hpool, rfl⟩ := addHost_cases hadd
    obtain ⟨-, -, rfl⟩ := (Pool.addHost_eq_ok_iff _ _ _ _).mp hpool
    intro g last hg
    rw [Table.get?_insert] at hg
    split at hg
    · cases hg
      refine hspecs spec ?_
      rw [hcommands, ← hadded]
      exact List.mem_append_right _ List.mem_cons_self
    · exact hstate g last hg
  · exact hkept hinstant.hosts

theorem sound_of_run {config : Config K} {policy : SingleThreshold K} {id : Nat}
    {commands : List (Command K)} (hrates : ∀ command ∈ commands, command.AsksFor (0 ≤ ·))
    (hhosts : ∀ spec, .addHost spec ∈ commands → spec.Usable)
    (hrun : ((create config policy id).run commands).result = .ok sim) : sim.Sound := by
  have hreachable : sim.Reachable (0 ≤ ·) := ⟨config, policy, id, commands, hrates, hrun⟩
  exact ⟨hreachable.pool_steps, specs_of_run hhosts hrun⟩

theorem selectHost_after_step (h : sim.Sound) (hstep : sim.step.result = .ok sim')
    (hv : v ∈ sim'.pending.toList) (hplaced : sim'.pool.placement v = some .unplaced) :
    sim'.policy.selectHost sim'.pool v = .ok none := by
  obtain ⟨hsound', hvain⟩ := inVain_of_step h hstep
  obtain ⟨vm, hrecord, hidle, -⟩ := (Pool.placement_eq_some_iff _ _ _).mp hplaced
  exact (hsound'.selectHost_eq_none_iff hrecord hidle).mpr (hvain v hv vm hrecord hidle)

theorem order_after_step {config : Config K} {policy : SingleThreshold K} {id : Nat}
    {commands : List (Command K)} (hrun : ((create config policy id).run commands).result = .ok sim)
    (hstep : sim.step.result = .ok sim') :
    sim'.pending.toList.Sublist sim.pending.toList ∧ sim'.pending.toList.Pairwise (· < ·) := by
  have hqueued : sim.Queued := queued_of_run (queued_create config policy id) hrun
  have hobey : (sim.obey .step).result = .ok sim' := hstep
  obtain ⟨hqueue, -⟩ := hqueued.obey hobey
  refine ⟨?_, hqueued.pairwise hobey (pending_pairwise hrun)⟩
  rw [hqueue]
  exact List.filter_sublist

/-- After a step, no VM waits although some host would take it: for each VM that waits and runs
nowhere, the policy finds no host. The VMs that still wait are in the order of before, which is that
of their submission. -/
theorem none_waits_needlessly {config : Config K} {policy : SingleThreshold K} {id : Nat}
    {commands : List (Command K)} (hrates : ∀ command ∈ commands, command.AsksFor (0 ≤ ·))
    (hhosts : ∀ spec, .addHost spec ∈ commands → spec.Usable)
    {sim sim' : Simulation K (SingleThreshold K)}
    (hrun : ((create config policy id).run commands).result = .ok sim)
    (hstep : sim.step.result = .ok sim') :
    (∀ v ∈ sim'.pending.toList, sim'.pool.placement v = some .unplaced →
      sim'.policy.selectHost sim'.pool v = .ok none)
    ∧ sim'.pending.toList.Sublist sim.pending.toList
    ∧ sim'.pending.toList.Pairwise (· < ·) := by
  have hsound := sound_of_run hrates hhosts hrun
  exact ⟨fun v hv hplaced => selectHost_after_step hsound hstep hv hplaced,
    order_after_step hrun hstep⟩

/-- Six VMs on two hosts, one of which is left by its VM. -/
def contestedRun : List (Command ℚ) :=
  let host : HostSpec ℚ := ⟨"host", 1, 1000, 8192, 1000, 100000, .linear 200 (1 / 2)⟩
  let vm (mips : ℚ) : VmSpec ℚ := ⟨"tenant", 1, mips, 1024, 100, 1000⟩
  [.addHost host, .addHost host, .submitVm (vm 900), .submitVm (vm 900), .submitVm (vm 500),
    .submitVm (vm 50), .submitVm (vm 800), .submitVm (vm 600), .releaseVm 1]

/-- A pass is run in each step. -/
def contestedStart : Simulation ℚ (SingleThreshold ℚ) :=
  let thresholds : Thresholds ℚ := ⟨4 / 5, 3 / 10⟩
  create ⟨"datacenter", "SingleThreshold", thresholds, 30, 30, 1, true, 1 / 2, [], []⟩
    (.ofThresholds thresholds) 7

theorem usable_of_mem_contestedRun {spec : HostSpec ℚ} (h : .addHost spec ∈ contestedRun) :
    spec.Usable := by
  have hspec : spec = ⟨"host", 1, 1000, 8192, 1000, 100000, .linear 200 (1 / 2)⟩ := by
    simpa [contestedRun] using h
  have hdraw : ∀ u : ℚ,
      (PowerModel.linear 200 (1 / 2)).draw u = 100 + 100 * Scalar.clampUnit u := by
    intro u
    rw [PowerModel.linear, PowerModel.ofCurve]
    norm_num
  have hlargest : (200 : ℚ) < Scalar.largest := by decide +kernel
  rw [hspec]
  refine HostSpec.usable_of_nonneg (by decide +kernel) (by decide +kernel) fun u => ?_
  rw [hdraw]
  exact ⟨by linarith [Scalar.clampUnit_nonneg u], by linarith [Scalar.clampUnit_le_one u]⟩

/-- The third VM takes the host that was left, the fifth and the sixth one are refused, and then the
pass moves the fourth one. -/
theorem contestedRun_waits : ∃ sim sim', (contestedStart.run contestedRun).result = .ok sim
    ∧ (∀ command ∈ contestedRun, command.AsksFor (0 ≤ ·))
    ∧ sim.pending.toList = [2, 4, 5] ∧ sim.step.result = .ok sim'
    ∧ sim'.pending.toList = [4, 5] ∧ sim'.pool.placement 3 = some ⟨some 0, some 1⟩
    ∧ sim'.policy.selectHost sim'.pool 4 = .ok none
    ∧ sim'.policy.selectHost sim'.pool 5 = .ok none := by
  have hrun : ((contestedStart.run contestedRun).result.toOption.any fun sim =>
      sim.pending.toList == [2, 4, 5] && sim.step.result.toOption.any fun sim' =>
        sim'.pending.toList == [4, 5] && sim'.pool.placement 3 == some ⟨some 0, some 1⟩
          && sim'.pool.placement 4 == some .unplaced && sim'.pool.placement 5 == some .unplaced)
      = true := by
    decide +kernel
  obtain ⟨sim, hsim, htest⟩ := Checked.eq_ok_of_any hrun
  rw [Bool.and_eq_true, beq_iff_eq] at htest
  obtain ⟨hbefore, hany⟩ := htest
  obtain ⟨sim', hstep, htest⟩ := Checked.eq_ok_of_any hany
  simp only [Bool.and_eq_true, beq_iff_eq] at htest
  obtain ⟨⟨⟨hafter, hmoving⟩, hfifth⟩, hsixth⟩ := htest
  have hrates : ∀ command ∈ contestedRun, command.AsksFor (0 ≤ ·) := by
    simp [contestedRun, Command.AsksFor]
  obtain ⟨hnone, -, -⟩ :=
    none_waits_needlessly hrates (fun _ hspec => usable_of_mem_contestedRun hspec) hsim hstep
  refine ⟨sim, sim', hsim, hrates, hbefore, hstep, hafter, hmoving, hnone 4 ?_ hfifth,
    hnone 5 ?_ hsixth⟩
  · simp [hafter]
  · simp [hafter]

/-- If no consumption is negative, it is enough that all of them are smaller than the largest
number. -/
theorem none_waits_below_largest {config : Config K} {policy : SingleThreshold K} {id : Nat}
    {commands : List (Command K)} (hrates : ∀ command ∈ commands, command.AsksFor (0 ≤ ·))
    (hhosts : ∀ spec, .addHost spec ∈ commands →
      0 < Scalar.ofNat spec.cores * spec.mipsPerCore ∧ 0 < spec.ram
        ∧ ∀ u, 0 ≤ spec.powerModel.draw u ∧ spec.powerModel.draw u < Scalar.largest)
    (hrun : ((create config policy id).run commands).result = .ok sim)
    (hstep : sim.step.result = .ok sim') :
    (∀ v ∈ sim'.pending.toList, sim'.pool.placement v = some .unplaced →
      sim'.policy.selectHost sim'.pool v = .ok none)
    ∧ sim'.pending.toList.Sublist sim.pending.toList
    ∧ sim'.pending.toList.Pairwise (· < ·) := by
  have husable : ∀ spec, .addHost spec ∈ commands → spec.Usable := by
    intro spec hspec
    obtain ⟨hmips, hram, hdraw⟩ := hhosts spec hspec
    exact HostSpec.usable_of_nonneg hmips hram hdraw
  have hsound := sound_of_run hrates husable hrun
  exact ⟨fun v hv hplaced => selectHost_after_step hsound hstep hv hplaced,
    order_after_step hrun hstep⟩

end Simulation

end Datacenter
