import Datacenter.Proofs.Destinations
import Datacenter.Proofs.Passes
import Datacenter.Proofs.PlanTracking

/-!
# Loads of planned targets

A host that takes a VM has room for it below the threshold, and nothing but another VM with room
there adds to its projection later on. The tally projects the planning loads of the pool in which
all planned migrations are under way, so targets are below the threshold in that pool.

Main statements: `TargetsBelow.step` and `PlannedBelow.targetsBelow`.
-/

namespace Datacenter

variable {K : Type} [ExactScalar K]

/-! ### Shares of a host -/

/-- The shares of the host that a load makes up are below the threshold. -/
structure Host.Below (host : Host K) (upper : K) (load : Resources K) : Prop where
  cpu : load.mips / host.totalMips < upper
  ram : Scalar.ofNat load.ram.toNat / Scalar.ofNat host.ram.toNat < upper

namespace Host.Below

variable {host host' : Host K} {upper : K} {load smaller demand : Resources K}

theorem mono (h : host.Below upper load) (hpos : 0 ≤ host.totalMips)
    (hmips : smaller.mips ≤ load.mips) (hram : smaller.ram.toNat ≤ load.ram.toNat) :
    host.Below upper smaller where
  cpu := lt_of_le_of_lt (div_le_div_of_nonneg_right hmips hpos) h.cpu
  ram := lt_of_le_of_lt
    (div_le_div_of_nonneg_right (Nat.cast_le.mpr hram) (Nat.cast_nonneg _)) h.ram

theorem of_isSame (h : host.Below upper load) (hsame : host.IsSame host') :
    host'.Below upper load := by
  refine ⟨?_, ?_⟩
  · rw [totalMips, hsame.2]
    exact h.cpu
  · rw [hsame.2]
    exact h.ram

theorem sub (h : host.Below upper load) (hpos : 0 ≤ host.totalMips) (hload : 0 ≤ load.mips)
    (hdemand : 0 ≤ demand.mips) : host.Below upper (load.sub demand) := by
  refine h.mono hpos ?_ ?_
  · rw [Resources.mips_sub, Scalar.larger_eq_max]
    exact max_le (sub_le_self _ hdemand) hload
  · exact (Resources.stock_sub load demand .memory).trans_le (Nat.sub_le _ _)

end Host.Below

/-- Without negative compute rates, no host has less than nothing to carry. -/
theorem Pool.Reachable.planningLoad_nonneg {pool : Pool K} (hr : pool.Reachable)
    (hn : pool.NonNegative) {h : HostId} {host : Host K} {load : Resources K}
    (hh : pool.hosts.get? h = some host) (hl : pool.planningLoad h = .ok load) :
    0 ≤ load.mips := by
  have hdestined : 0 ≤ pool.sumAt (fun d => d.mips) (fun _ vm => vm.destination) h := by
    refine Table.total_nonneg fun v vm hv => ?_
    split
    · exact hn v vm hv
    · exact le_refl 0
  exact hdestined.trans
    (hr.destined_le_planningLoad Resources.isAmount_mips hh (hr.covers_mips h host hh) hl)

theorem Pool.utilization_lt {pool : Pool K} {h : HostId} {host : Host K} {load : Resources K}
    {upper : K} (hh : pool.hosts.get? h = some host) (hl : pool.planningLoad h = .ok load)
    (hb : host.Below upper load) : ∃ cpu ram, pool.cpuUtilization h = .ok cpu
      ∧ pool.ramUtilization h = .ok ram ∧ cpu < upper ∧ ram < upper := by
  have hhost := (host_eq_ok_iff _ _ _).mpr hh
  refine ⟨_, _, ?_, ?_, hb.cpu, hb.ram⟩
  · rw [cpuUtilization, hl, Checked.ok_bind, hhost, Checked.ok_bind, Checked.pure_eq_ok]
  · rw [ramUtilization, hl, Checked.ok_bind, hhost, Checked.ok_bind, Checked.pure_eq_ok]

/-- What all VMs that end up on the host take from it, once all migrations have landed. -/
def Pool.destined {M : Type} [AddCommMonoid M] (pool : Pool K) (f : Resources K → M) (h : HostId) :
    M := pool.sumAt f (fun _ vm => vm.destination) h

theorem Pool.Reachable.destined_lt {pool : Pool K} (hr : pool.Reachable) {h : HostId}
    {host : Host K} {load : Resources K} {upper : K} (hh : pool.hosts.get? h = some host)
    (hl : pool.planningLoad h = .ok load) (hb : host.Below upper load)
    (hmips : 0 < host.totalMips) (hram : 0 < host.ram) :
    pool.destined (fun d => d.mips) h < upper * host.totalMips
      ∧ (pool.destined (fun d => d.stock .memory) h : ℕ) < upper * host.ram.toNat := by
  have hcompute := hr.destined_le_planningLoad Resources.isAmount_mips hh
    (hr.covers_mips h host hh) hl
  have hmemory := hr.destined_le_planningLoad (Resources.isAmount_stock .memory) hh
    ((hr.balanced h host hh).covers_stock .memory) hl
  have hwords : (0 : K) < host.ram.toNat := Nat.cast_pos.mpr (UInt64.lt_iff_toNat_lt.mp hram)
  exact ⟨lt_of_le_of_lt hcompute ((div_lt_iff₀ hmips).mp hb.cpu),
    lt_of_le_of_lt (Nat.cast_le.mpr hmemory) ((div_lt_iff₀ hwords).mp hb.ram)⟩

/-! ### Targets of a planner -/

namespace Planner

/-- What is projected on the planned targets is below the threshold. -/
def Outlook.TargetsBelow (p : Outlook K) (upper : K) : Prop :=
  ∀ g, p.isPlannedTarget g = true → ∃ load host, p.view g = .ok load
    ∧ p.pool.hosts.get? g = some host ∧ host.Below upper load.projected

variable {p p' : Outlook K} {after : Pool K} {upper : K} {m : Migration K}
  {ms : List (Migration K)}

theorem targetsBelow_start (pool : Pool K) (id : Nat) (upper : K) :
    (Planner.start pool id).outlook.TargetsBelow upper := by
  intro g hg
  rw [outlook_start, Outlook.isPlannedTarget, Std.TreeSet.contains_emptyc] at hg
  cases hg

/-- A projection is a planning load, so it is never negative. -/
theorem Tracks.projected_nonneg (ht : Tracks p after) (hn : p.pool.NonNegative) {g : HostId}
    {host : Host K} {load : PlannedLoad K} (hh : p.pool.hosts.get? g = some host)
    (hl : p.view g = .ok load) : 0 ≤ load.projected.mips := by
  obtain ⟨host', hh', -⟩ := ht.hosts.symm.get? hh
  obtain ⟨load', hl', -, hplanning⟩ := ht.loads hn hh'
  rw [hl, Except.ok.injEq] at hl'
  subst hl'
  exact ht.reachable.planningLoad_nonneg (ht.nonNegative hn) hh' hplanning

theorem Outlook.TargetsBelow.step (hb : p.TargetsBelow upper) (ht : Tracks p after)
    (hn : p.pool.NonNegative) (hpos : p.pool.AllHosts fun host => 0 < host.totalMips)
    (hs : StepBelow upper p m p') : p'.TargetsBelow upper := by
  obtain ⟨vm, hv, -⟩ := hs.stays
  obtain ⟨left, taken, projected, committed, hleft, htaken, hprojected, -, hload⟩ :=
    moveDemand_eq_ok hs.ne (hs.view vm hv)
  intro g hg
  rw [hload, hs.pool]
  by_cases htarget : g = m.target
  · -- The room that was found counts the VM already.
    obtain ⟨load, host, ram, hl, hh, hram, hcpu, hshare, -⟩ := fits_eq_true (hs.fits vm hv)
    rw [htaken, Except.ok.injEq] at hl
    subst hl
    obtain ⟨hmips, hstock⟩ := (Resources.add_eq_ok_iff _ _ _).mp hprojected
    have hword : ram.toNat = projected.ram.toNat :=
      ((addWords_eq_ok_iff _ _ _).mp hram).trans (hstock .memory).symm
    refine ⟨⟨projected, committed⟩, host, if_pos htarget, htarget ▸ hh, ?_, ?_⟩
    · rw [hmips]
      exact lt_of_not_ge hcpu
    · rw [← hword]
      exact lt_of_not_ge hshare
  · have hbefore : p.isPlannedTarget g = true :=
      ((hs.isPlannedTarget_iff g).mp hg).resolve_left (Ne.symm htarget)
    obtain ⟨load, host, hl, hh, hbelow⟩ := hb g hbefore
    rw [if_neg htarget]
    by_cases hsource : g = m.source
    · -- The projection is a planning load, so taking a demand away never adds to it.
      subst hsource
      rw [hleft, Except.ok.injEq] at hl
      subst hl
      have hload := ht.projected_nonneg hn hh hleft
      exact ⟨_, host, if_pos rfl, hh, hbelow.sub (hpos _ host hh).le hload (hn _ vm hv)⟩
    · rw [if_neg hsource]
      exact ⟨load, host, hl, hh, hbelow⟩

theorem PlannedBelow.targetsBelow (h : PlannedBelow upper p ms p') (ht : Tracks p after)
    (hn : p.pool.NonNegative) (hpos : p.pool.AllHosts fun host => 0 < host.totalMips)
    (hb : p.TargetsBelow upper) : p'.TargetsBelow upper := by
  induction h generalizing after with
  | nil => exact hb
  | cons hs _ ih =>
    obtain ⟨between, -, hbetween⟩ := ht.step hs.toStep
    exact ih hbetween (hs.pool.symm ▸ hn) (hs.pool.symm ▸ hpos) (hb.step ht hn hpos hs)

/-- The planned targets are below the threshold in the pool that the tally tracks. -/
theorem Tracks.below (ht : Tracks p after) (hn : p.pool.NonNegative) (hb : p.TargetsBelow upper)
    {g : HostId} (hg : p.isPlannedTarget g = true) : ∃ host load, after.hosts.get? g = some host
      ∧ after.planningLoad g = .ok load ∧ host.Below upper load := by
  obtain ⟨load, planned, hl, hplanned, hbelow⟩ := hb g hg
  obtain ⟨host, hh, hsame⟩ := ht.hosts.symm.get? hplanned
  obtain ⟨load', hl', -, hplanning⟩ := ht.loads hn hh
  rw [hl, Except.ok.injEq] at hl'
  subst hl'
  exact ⟨host, load.projected, hh, hplanning, hbelow.of_isSame ⟨hsame.1.symm, hsame.2.symm⟩⟩

end Planner

namespace SingleThreshold

/-- Once all migrations of a pass are under way, the targets are below the upper threshold, and so
is what is there when all migrations have landed, those from before the pass included. -/
theorem targets_stay_below {pool : Pool K} (hr : pool.Reachable) (hn : pool.NonNegative)
    (hhosts : pool.AllHosts fun host => 0 < host.totalMips ∧ 0 < host.ram)
    {policy policy' : SingleThreshold K} {monitoring : Monitoring K} {id : Nat}
    {plan : List (Migration K)}
    (h : (AllocationPolicy.optimize policy pool monitoring id).result = .ok (plan, policy')) :
    ∃ pool', pool.startPlan plan = .ok (pool', none) ∧ ∀ m ∈ plan, ∃ host cpu ram,
      pool'.hosts.get? m.target = some host
      ∧ pool'.cpuUtilization m.target = .ok cpu ∧ pool'.ramUtilization m.target = .ok ram
      ∧ cpu < policy.thresholds.upper ∧ ram < policy.thresholds.upper
      ∧ pool'.destined (fun d => d.mips) m.target < policy.thresholds.upper * host.totalMips
      ∧ (pool'.destined (fun d => d.stock .memory) m.target : ℕ)
        < policy.thresholds.upper * host.ram.toNat := by
  obtain ⟨distributed, consolidated, rfl, hphases⟩ := phases_of_plan hr.ownership
    (plan_of_optimize h).1
  obtain ⟨p, hplanned⟩ := hphases.below
  have hstarted := Planner.Tracks.start hr id
  obtain ⟨pool', hstart, ht⟩ := hstarted.run hplanned.planned
  have hpool : p.pool = pool := hplanned.planned.pool_eq
  have hb := hplanned.targetsBelow hstarted hn (fun g host hg => (hhosts g host hg).1)
    (Planner.targetsBelow_start pool id _)
  refine ⟨pool', hstart, fun m hm => ?_⟩
  obtain ⟨host, load, hh, hl, hbelow⟩ := ht.below (hpool ▸ hn) hb
    ((hplanned.isPlannedTarget_iff m.target).mpr (.inl ⟨m, hm, rfl⟩))
  obtain ⟨cpu, ram, hcpu, hram, hcpuBelow, hramBelow⟩ := Pool.utilization_lt hh hl hbelow
  obtain ⟨before, hbefore, hsame⟩ := ht.hosts.get? hh
  obtain ⟨hmips, hwords⟩ := hhosts _ before (hpool ▸ hbefore)
  rw [Host.totalMips, ← hsame.2] at hmips
  rw [← hsame.2] at hwords
  obtain ⟨hcompute, hmemory⟩ := ht.reachable.destined_lt hh hl hbelow hmips hwords
  exact ⟨host, cpu, ram, hh, hcpu, hram, hcpuBelow, hramBelow, hcompute, hmemory⟩

theorem mixedRun_targets : ∃ (pool pool' : Pool ℚ) (plan : List (Migration ℚ))
    (policy : SingleThreshold ℚ),
    Pool.empty.run mixedRun = .ok pool ∧ pool.Reachable ∧ pool.NonNegative
    ∧ (pool.AllHosts fun host => 0 < host.totalMips ∧ 0 < host.ram)
    ∧ (AllocationPolicy.optimize mixedPolicy pool (.ofLength 3) 7).result = .ok (plan, policy)
    ∧ plan.map (fun m => (m.vm, m.source, m.target)) = [(0, 0, 2), (3, 1, 2), (5, 4, 2)]
    ∧ pool.startPlan plan = .ok (pool', none) ∧ ∀ m ∈ plan, ∃ cpu ram,
      pool'.cpuUtilization m.target = .ok cpu ∧ pool'.ramUtilization m.target = .ok ram
      ∧ cpu < mixedPolicy.thresholds.upper ∧ ram < mixedPolicy.thresholds.upper := by
  have hrun : (Pool.empty.run (mixedRun : List (Pool.Op ℚ))).toOption.any (fun pool =>
      (pool.vms.entries.all (fun e => decide (0 ≤ e.2.demand.mips))
        && pool.hosts.entries.all fun e => decide (0 < e.2.totalMips ∧ 0 < e.2.ram))
      && (AllocationPolicy.optimize (mixedPolicy : SingleThreshold ℚ) pool (.ofLength 3)
        7).result.toOption.any fun r =>
          r.1.map (fun m => (m.vm, m.source, m.target)) == [(0, 0, 2), (3, 1, 2), (5, 4, 2)])
      = true := by
    decide +kernel
  obtain ⟨pool, hp, htest⟩ := Checked.eq_ok_of_any hrun
  rw [Bool.and_eq_true, Bool.and_eq_true, List.all_eq_true, List.all_eq_true] at htest
  obtain ⟨⟨hrates, hsizes⟩, hoptimized⟩ := htest
  obtain ⟨⟨plan, policy⟩, hoptimize, hmoves⟩ := Checked.eq_ok_of_any hoptimized
  have hr := Pool.reachable_of_run hp
  have hn : pool.NonNegative := by
    intro v vm hv
    exact of_decide_eq_true (hrates (v, vm) ((Table.mem_entries_iff _ _ _).mpr hv))
  have hhosts : pool.AllHosts fun host => 0 < host.totalMips ∧ 0 < host.ram := by
    intro h host hh
    exact of_decide_eq_true (hsizes (h, host) ((Table.mem_entries_iff _ _ _).mpr hh))
  obtain ⟨pool', hstart, hbelow⟩ := targets_stay_below hr hn hhosts hoptimize
  refine ⟨pool, pool', plan, policy, hp, hr, hn, hhosts, hoptimize, beq_iff_eq.mp hmoves, hstart,
    fun m hm => ?_⟩
  obtain ⟨-, cpu, ram, -, hcpu, hram, hcpuBelow, hramBelow, -⟩ := hbelow m hm
  exact ⟨cpu, ram, hcpu, hram, hcpuBelow, hramBelow⟩

end SingleThreshold

end Datacenter
