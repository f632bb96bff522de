import Datacenter.Proofs.Passes
import Datacenter.Proofs.PlanTracking
import Datacenter.Proofs.Rearrangements

/-!
# Plans that can be started

Whatever a planner is asked for, all migrations that it answers can be started on its pool, in the
order in which they were planned. The plans of an optimization pass are such answers, so applying
them is never rejected.

Main statement: `applyPlan_eq_ok`.
-/

namespace Datacenter

/-! ### Applying a plan -/

namespace Simulation

variable {α π : Type} [Scalar α]

theorem launch_eq_ok {sim : Simulation α π} {m : Migration α}
    (hm : ∃ vm, sim.pool.vms.get? m.vm = some vm) :
    ∃ sim', (sim.launch m).result = .ok sim' ∧ sim'.pool = sim.pool := by
  obtain ⟨vm, hv⟩ := hm
  simp only [launch, Logged.result_bind, Logged.result_lift, (Pool.vm_eq_ok_iff _ _ _).mpr hv,
    Checked.ok_bind]
  exact ⟨_, rfl, rfl⟩

theorem fold_launch_eq_ok (sim : Simulation α π) {ms : List (Migration α)}
    (hms : ∀ m ∈ ms, ∃ vm, sim.pool.vms.get? m.vm = some vm) :
    ∃ sim', (Logged.fold launch sim ms).result = .ok sim' := by
  rw [Logged.fold_eq_foldlM]
  induction ms generalizing sim with
  | nil => exact ⟨sim, rfl⟩
  | cons m rest ih =>
    obtain ⟨next, hnext, hpool⟩ := launch_eq_ok (hms m List.mem_cons_self)
    have hknown : ∀ x ∈ rest, ∃ vm, next.pool.vms.get? x.vm = some vm := by
      intro x hx
      rw [hpool]
      exact hms x (List.mem_cons_of_mem _ hx)
    obtain ⟨sim', hrest⟩ := ih next hknown
    refine ⟨sim', ?_⟩
    rw [List.foldlM_cons, Logged.result_bind, hnext]
    exact hrest

theorem applyPlan_eq_ok [AllocationPolicy α π] {sim : Simulation α π}
    {ms : List (Migration α)} {pool' : Pool α}
    (hstart : sim.pool.startPlan ms = .ok (pool', none))
    (hms : ∀ m ∈ ms, ∃ vm, sim.pool.vms.get? m.vm = some vm) :
    ∃ sim', (sim.applyPlan ms).result = .ok (.ok ms.length, sim') := by
  rw [applyPlan]
  split
  · rename_i hempty
    rw [List.isEmpty_iff.mp hempty]
    exact ⟨sim, rfl⟩
  · have hknown : ∀ m ∈ ms, ∃ vm, pool'.vms.get? m.vm = some vm := by
      intro m hm
      obtain ⟨vm, hv⟩ := hms m hm
      obtain ⟨vm', hv', -⟩ := (Pool.startPlan_steps hstart).sameVms.symm.get? hv
      exact ⟨vm', hv'⟩
    simp only [Logged.result_bind, Logged.result_lift, hstart, Checked.ok_bind]
    obtain ⟨sim', hfold⟩ := fold_launch_eq_ok
      { sim with pool := pool', policy := AllocationPolicy.save sim.policy sim.pool sim.pool.vmIds }
      hknown
    rw [hfold]
    exact ⟨_, rfl⟩

end Simulation

/-! ### Every plan can be started -/

namespace Planner

variable {K : Type} [ExactScalar K]

/-- What a pass plans can be started in the pool that it was planned for. -/
theorem startPlan_of_optimize {pool : Pool K} (hr : pool.Reachable)
    {policy policy' : SingleThreshold K} {monitoring : Monitoring K} {id : Nat}
    {ms : List (Migration K)}
    (h : (AllocationPolicy.optimize policy pool monitoring id).result = .ok (ms, policy')) :
    (∀ m ∈ ms, Suits pool m) ∧ ∃ pool', pool.startPlan ms = .ok (pool', none) := by
  obtain ⟨p, hplanned⟩ :=
    SingleThreshold.planned_of_plan hr.ownership (SingleThreshold.plan_of_optimize h).1
  obtain ⟨pool', hstart, -⟩ := (Tracks.start hr id).run hplanned
  exact ⟨hplanned.suits, pool', hstart⟩

/-- All migrations that a planner answers can be started in turn, and an optimization pass is never
rejected by the pool that it was planned for. -/
theorem plans_can_be_started {pool : Pool K} (hr : pool.Reachable) :
    (∀ (id : Nat) (calls : List (Call K)) (plans : List (List (Migration K))) (p : Planner K),
      (Planner.start pool id).answers calls = .ok (plans, p) →
      (plans.flatten.map (·.vm)).Nodup
      ∧ (∀ m ∈ plans.flatten, pool.IsResident m.source m.vm ∧ Suits pool m)
      ∧ List.Forall₂ (fun call ms => ∀ m ∈ ms, call.Allows m) calls plans
      ∧ ∃ pool', pool.startPlan plans.flatten = .ok (pool', none))
    ∧ ∀ (π : Type) [AllocationPolicy K π] (sim : Simulation K π), sim.pool = pool →
      ∀ (policy policy' : SingleThreshold K) (monitoring : Monitoring K) (id : Nat)
        (plan : List (Migration K)),
      (AllocationPolicy.optimize policy pool monitoring id).result = .ok (plan, policy') →
      ∃ sim', (sim.applyPlan plan).result = .ok (.ok plan.length, sim') := by
  have own := hr.ownership
  refine ⟨fun id calls plans p h => ?_, ?_⟩
  · obtain ⟨hplanned, hallowed⟩ := answers_planned own h
    obtain ⟨pool', hstart, -⟩ := (Tracks.start hr id).run hplanned
    refine ⟨hplanned.nodup.1, fun m hm => ?_, hallowed, pool', hstart⟩
    have hsuits := hplanned.suits m hm
    obtain ⟨vm, hv, hs, -⟩ := hsuits.stays
    exact ⟨(own.isResident_iff m.source m.vm).mpr ⟨vm, hv, hs⟩, hsuits⟩
  · rintro π _ sim rfl policy policy' monitoring id plan h
    obtain ⟨hsuits, pool', hstart⟩ := startPlan_of_optimize hr h
    refine Simulation.applyPlan_eq_ok hstart fun m hm => ?_
    obtain ⟨vm, hv, -⟩ := (hsuits m hm).stays
    exact ⟨vm, hv⟩

/-- A crowded host, two hosts with a few VMs, and an idle one. -/
def scatteredRun : List (Pool.Op ℚ) :=
  let host : HostSpec ℚ := ⟨"host", 4, 1000, 8192, 1000, 100000, .linear 200 (1 / 2)⟩
  let vm (mips : ℚ) : VmSpec ℚ := ⟨"tenant", 2, mips, 1024, 100, 1000⟩
  [.addHost host, .addHost host, .addHost host, .addHost host, .addVm (vm 500),
    .addVm (vm (1501 / 3)), .addVm (vm 750), .addVm (vm 250), .addVm (vm (1 / 7)), .addVm (vm 100),
    .allocate 0 0, .allocate 1 0, .allocate 2 0, .allocate 3 1, .allocate 4 2, .allocate 5 2]

/-- The third host is emptied past an excluded one. The second host expects VMs after that. -/
def scatteredCalls : List (Call ℚ) :=
  [.distribute 0 [0, 1, 2] (4 / 5), .consolidate 2 [3, 1] (.ofList [3]) (4 / 5),
    .consolidate 1 [0] ∅ (4 / 5)]

/-- A simulation of the pool that optimizes between three and eight tenths of utilization. -/
def scatteredSimulation (pool : Pool ℚ) : Simulation ℚ (SingleThreshold ℚ) :=
  let thresholds : Thresholds ℚ := ⟨4 / 5, 3 / 10⟩
  let config : Config ℚ :=
    ⟨"datacenter", "SingleThreshold", thresholds, 1, 1, 3, true, 1 / 2, [], []⟩
  { Simulation.create config (.ofThresholds thresholds) 7 with pool := pool }

theorem scatteredCalls_start : ∃ pool plans p plan policy sim',
    Pool.empty.run scatteredRun = .ok pool ∧ pool.Reachable
    ∧ (Planner.start pool 7).answers scatteredCalls = .ok (plans, p)
    ∧ plans.map (fun ms => ms.map fun m => (m.vm, m.target)) = [[(0, 1)], [(4, 1), (5, 1)], []]
    ∧ (plans.flatten.map (·.vm)).Nodup
    ∧ (∃ pool', pool.startPlan plans.flatten = .ok (pool', none))
    ∧ (AllocationPolicy.optimize (scatteredSimulation pool).policy pool (.ofLength 3) 7).result
      = .ok (plan, policy)
    ∧ plan.map (fun m => (m.vm, m.target)) = [(0, 2), (3, 2)]
    ∧ ((scatteredSimulation pool).applyPlan plan).result = .ok (.ok plan.length, sim') := by
  have hrun : (Pool.empty.run scatteredRun).toOption.any (fun pool =>
      (((Planner.start pool 7).answers scatteredCalls).toOption.any fun r =>
        r.1.map (fun ms => ms.map fun m => (m.vm, m.target)) == [[(0, 1)], [(4, 1), (5, 1)], []])
      && (AllocationPolicy.optimize (scatteredSimulation pool).policy pool
        (.ofLength 3) 7).result.toOption.any fun r =>
          r.1.map (fun m => (m.vm, m.target)) == [(0, 2), (3, 2)]) = true := by
    decide +kernel
  obtain ⟨pool, hp, htest⟩ := Checked.eq_ok_of_any hrun
  rw [Bool.and_eq_true] at htest
  obtain ⟨⟨plans, p⟩, hanswers, hmoves⟩ := Checked.eq_ok_of_any htest.1
  obtain ⟨⟨plan, policy⟩, hoptimize, hpass⟩ := Checked.eq_ok_of_any htest.2
  have hr := Pool.reachable_of_run hp
  obtain ⟨hcalls, happly⟩ := plans_can_be_started hr
  obtain ⟨hnodup, -, -, hstart⟩ := hcalls 7 scatteredCalls plans p hanswers
  obtain ⟨sim', happlied⟩ := happly _ (scatteredSimulation pool) rfl _ policy _ 7 plan hoptimize
  exact ⟨pool, plans, p, plan, policy, sim', hp, hr, hanswers, beq_iff_eq.mp hmoves, hnodup,
    hstart, hoptimize, beq_iff_eq.mp hpass, happlied⟩

end Planner

end Datacenter
