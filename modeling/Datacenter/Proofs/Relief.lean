import Datacenter.Proofs.Passes
import Datacenter.Proofs.Placements
import Datacenter.Proofs.PlanTracking

/-!
# Relief of overloaded hosts

A host counts as overloaded by its load and its history, but as relieved by its projected load
alone, which is looked at only after a migration off it has been planned. So a pass plans no
migration off a host that it has relieved, while the first migration off a host can be one that is
not needed.

Main statements: `Relieves.split`, `relieves_of_distributeAll` and `moves_are_needed`.
-/

namespace Datacenter

variable {α : Type} [Scalar α]

/-! ### Tallies after migrations -/

namespace Tally

/-- The tally once the migrations have been planned too. -/
def following (pool : Pool α) (t : Tally α) (ms : List (Migration α)) : Checked (Tally α) :=
  ms.foldlM (fun t m => do
    let vm ← pool.vm m.vm
    t.moveDemand pool m.source m.target vm.demand) t

/-- Before anything is planned, planned loads and the pool give the same utilization. -/
theorem utilization_of_current {pool : Pool α} {h : HostId} {host : Host α}
    {load : PlannedLoad α} (hh : pool.hosts.get? h = some host)
    (hl : PlannedLoad.current pool h = .ok load) :
    pool.cpuUtilization h = .ok (load.projected.mips / host.totalMips)
      ∧ pool.ramUtilization h
        = .ok (Scalar.ofNat load.projected.ram.toNat / Scalar.ofNat host.ram.toNat) := by
  simp only [PlannedLoad.current, Checked.bind_eq_ok_iff, Checked.pure_eq_ok, Except.ok.injEq] at hl
  obtain ⟨projected, hp, _, -, committed, -, rfl⟩ := hl
  have hhost := (Pool.host_eq_ok_iff _ _ _).mpr hh
  constructor
  · rw [Pool.cpuUtilization, hp, Checked.ok_bind, hhost, Checked.ok_bind, Checked.pure_eq_ok]
  · rw [Pool.ramUtilization, hp, Checked.ok_bind, hhost, Checked.ok_bind, Checked.pure_eq_ok]

end Tally

namespace Planner

variable {upper : α} {p between p' : Outlook α} {source : HostId} {targets : List HostId}
  {vms : List VmId} {m : Migration α} {earlier ms later : List (Migration α)}

/-- Moving the demands of planned migrations gives a tally with the view after them. -/
theorem Planned.following_eq_ok (h : Planned p ms p') {t : Tally α}
    (ht : t.view p.pool = p.view) :
    ∃ t', t.following p.pool ms = .ok t' ∧ t'.view p.pool = p'.view := by
  induction h generalizing t with
  | nil p => exact ⟨t, rfl, ht⟩
  | cons hs _ ih =>
    obtain ⟨vm, hv, -⟩ := hs.stays
    have hmoved := hs.view vm hv
    rw [← ht] at hmoved
    obtain ⟨next, hnext, hview⟩ := (Tally.moveDemand_agrees ..).eq_ok_right hmoved
    rw [← hs.pool] at hview
    obtain ⟨t', hrest, hlast⟩ := ih hview
    rw [hs.pool] at hrest hlast
    refine ⟨t', ?_, hlast⟩
    rw [Tally.following, List.foldlM_cons, (Pool.vm_eq_ok_iff _ _ _).mpr hv, Checked.ok_bind,
      hnext]
    exact hrest

/-- Hosts that no migration touches keep their loads. -/
theorem Planned.load_eq (h : Planned p ms p') {g : HostId}
    (hg : ∀ m ∈ ms, m.source ≠ g ∧ m.target ≠ g) : p'.view g = p.view g := by
  induction h with
  | nil p => rfl
  | cons hs _ ih =>
    obtain ⟨⟨hsource, htarget⟩, hrest⟩ := List.forall_mem_cons.mp hg
    obtain ⟨vm, hv, -⟩ := hs.stays
    obtain ⟨_, _, _, _, -, -, -, -, hload⟩ := moveDemand_eq_ok hs.ne (hs.view vm hv)
    rw [ih hrest, hload, if_neg htarget.symm, if_neg hsource.symm]

/-! ### Sources that are not relieved yet -/

/-- Migrations that are planned after earlier ones. A host that was a source before is a source
again only if it is not relieved. -/
inductive Relieves (upper : α) :
    List (Migration α) → Outlook α → List (Migration α) → Outlook α → Prop where
  | nil (earlier : List (Migration α)) (p : Outlook α) : Relieves upper earlier p [] p
  | cons {earlier ms : List (Migration α)} {p between p' : Outlook α} {m : Migration α}
      (hs : StepBelow upper p m between)
      (hneeded : (∃ x ∈ earlier, x.source = m.source) → p.isRelieved m.source upper = .ok false)
      (rest : Relieves upper (earlier ++ [m]) between ms p') :
      Relieves upper earlier p (m :: ms) p'

namespace Relieves

theorem append (h : Relieves upper earlier p ms between)
    (hlater : Relieves upper (earlier ++ ms) between later p') :
    Relieves upper earlier p (ms ++ later) p' := by
  induction h with
  | nil earlier p =>
    rw [List.append_nil] at hlater
    exact hlater
  | cons hs hneeded _ ih =>
    refine .cons hs hneeded (ih ?_)
    rw [List.append_assoc, List.singleton_append]
    exact hlater

/-- What is known when one of the migrations is planned. -/
theorem split {before : List (Migration α)}
    (h : Relieves upper earlier p (before ++ m :: later) p') :
    ∃ q q', Planned p before q ∧ StepBelow upper q m q'
      ∧ ((∃ x ∈ earlier ++ before, x.source = m.source) →
        q.isRelieved m.source upper = .ok false) := by
  induction before generalizing earlier p with
  | nil =>
    cases h with
    | cons hs hneeded _ =>
      rw [List.append_nil]
      exact ⟨p, _, .nil p, hs, hneeded⟩
  | cons x before ih =>
    cases h with
    | cons hs _ rest =>
      obtain ⟨q, q', hplanned, hstep, hneeded⟩ := ih rest
      rw [List.append_assoc, List.singleton_append] at hneeded
      exact ⟨q, q', .cons hs.toStep hplanned, hstep, hneeded⟩

/-- One source. Passing over a VM changes nothing, so what was read after a migration still holds
when the next one is planned. -/
theorem of_distributes (h : Distributes source targets upper p vms ms p')
    (hneeded : (∃ x ∈ earlier, x.source = source) → p.isRelieved source upper = .ok false) :
    Relieves upper earlier p ms p' := by
  induction h generalizing earlier with
  | done p => exact .nil earlier p
  | skip _ _ _ ih => exact ih hneeded
  | last vms hs hm _ => exact .cons hs (hm.1.source ▸ hneeded) (.nil _ _)
  | more hs hm hrelieved _ ih => exact .cons hs (hm.1.source ▸ hneeded) (ih fun _ => hrelieved)

end Relieves

end Planner

namespace SingleThreshold

open Planner (Relieves)

variable {pool : Pool α} {p p' : Planner α} {targets sources : List HostId} {upper : α}
  {earlier ms : List (Migration α)}

/-- Each host is a source once, so what was planned for other hosts does not matter. -/
theorem relieves_of_distributeAll (own : p.pool.Ownership) (hnodup : sources.Nodup)
    (hother : ∀ g ∈ sources, ∀ x ∈ earlier, x.source ≠ g)
    (h : (distributeAll p targets upper sources).result = .ok (ms, p')) :
    Relieves upper earlier p.outlook ms p'.outlook := by
  induction sources generalizing earlier p p' ms with
  | nil =>
    rw [distributeAll, Logged.result_pure, Except.ok.injEq, Prod.mk.injEq] at h
    obtain ⟨rfl, rfl⟩ := h
    exact .nil earlier p.outlook
  | cons source rest ih =>
    obtain ⟨moved, between, later, hmoved, hlater, rfl⟩ := distributeAll_cons_eq_ok h
    obtain ⟨hsource, hrest⟩ := List.nodup_cons.mp hnodup
    obtain ⟨hbelow, hfollows⟩ := Planner.distribute_below own hmoved
    have hpool : between.pool = p.pool := hbelow.planned.pool_eq
    obtain ⟨vms, -, hdistributes⟩ := Planner.distributes_of_distribute own hmoved
    refine Relieves.append (.of_distributes hdistributes ?_)
      (ih (hpool ▸ own) hrest ?_ hlater)
    · rintro ⟨x, hx, heq⟩
      exact (hother source List.mem_cons_self x hx heq).elim
    · intro g hg
      refine List.forall_mem_append.mpr ⟨hother g (List.mem_cons_of_mem _ hg), fun x hx heq => ?_⟩
      rw [(hfollows x hx).1.source] at heq
      exact hsource (heq ▸ hg)

/-- What is known of a migration off an overloaded host when it is planned. -/
theorem relieves_of_plan (own : pool.Ownership) {t : Thresholds α} {monitoring : Monitoring α}
    {id : Nat} {later : List (Migration α)} {m : Migration α}
    (h : (plan t pool monitoring id).result = .ok (earlier ++ m :: later))
    (hm : m.reason = .distribute) :
    ∃ q q', Planner.Planned (Planner.start pool id).outlook earlier q
      ∧ Planner.StepBelow t.upper q m q'
      ∧ ((∃ x ∈ earlier, x.source = m.source) → q.isRelieved m.source t.upper = .ok false)
      ∧ t.statusOf pool monitoring m.source = .ok .overloaded
      ∧ ∀ x ∈ earlier, x.target ≠ m.source := by
  obtain ⟨distributed, consolidated, hparts, hphases, hfirst⟩ := parts_of_plan own h
  have hnot : m ∉ consolidated := by
    intro hmem
    rw [(hphases.empties m hmem).1] at hm
    cases hm
  -- The migration is one of the first phase, and so are the earlier ones.
  obtain ⟨rest, rfl⟩ : ∃ rest, distributed = earlier ++ m :: rest := by
    rcases List.append_eq_append_iff.mp hparts with ⟨mid, hhead, htail⟩ | ⟨mid, -, htail⟩
    · rcases List.cons_eq_append_iff.mp htail with ⟨-, hall⟩ | ⟨rest, rfl, -⟩
      · exact (hnot (hall ▸ List.mem_cons_self)).elim
      · exact ⟨rest, hhead⟩
    · exact (hnot (htail ▸ List.mem_append_right _ List.mem_cons_self)).elim
  rcases hfirst with hnil | ⟨sources, targets, p, hnodup, hall⟩
  · exact (List.append_ne_nil_of_right_ne_nil _ (List.cons_ne_nil m rest) hnil).elim
  have hrelieves : Relieves t.upper [] (Planner.start pool id).outlook (earlier ++ m :: rest)
      p.outlook :=
    relieves_of_distributeAll own hnodup (fun _ _ _ hx => nomatch hx) hall
  obtain ⟨q, q', hplanned, hstep, hneeded⟩ := hrelieves.split
  have hstatus := (hphases.relieves m (List.mem_append_right _ List.mem_cons_self)).2
  refine ⟨q, q', hplanned, hstep, hneeded, hstatus, fun x hx heq => ?_⟩
  obtain ⟨status, hspared, hne⟩ := hphases.spares x
    (List.mem_append_left _ (List.mem_append_left _ hx))
  rw [heq, hstatus, Except.ok.injEq] at hspared
  exact hne hspared.symm

/-- A migration off an overloaded host is needed: when it is planned, the load that is projected for
the host is not below the threshold. The only exception is the first migration off a host that was
below the threshold before the pass, and overloaded by its history. -/
theorem moves_are_needed (hr : pool.Reachable) {policy policy' : SingleThreshold α}
    {monitoring : Monitoring α} {id : Nat} {plan later : List (Migration α)} {m : Migration α}
    (h : (AllocationPolicy.optimize policy pool monitoring id).result = .ok (plan, policy'))
    (hplan : plan = earlier ++ m :: later) (hm : m.reason = .distribute) :
    ∃ t cpu ram read last, Tally.empty.following pool earlier = .ok t
      ∧ t.cpuUtilization pool m.source = .ok (cpu, read)
      ∧ read.ramUtilization pool m.source = .ok (ram, last)
      ∧ (¬(cpu < policy.thresholds.upper ∧ ram < policy.thresholds.upper)
        ∨ (∀ x ∈ earlier, x.source ≠ m.source)
          ∧ pool.cpuUtilization m.source = .ok cpu ∧ pool.ramUtilization m.source = .ok ram
          ∧ policy.thresholds.statusOf pool monitoring m.source = .ok .overloaded) := by
  subst hplan
  obtain ⟨q, q', hplanned, hstep, hneeded, hstatus, htargets⟩ :=
    relieves_of_plan hr.ownership (plan_of_optimize h).1 hm
  have hpool : q.pool = pool := hplanned.pool_eq
  obtain ⟨vm, hv, hs, -⟩ := hstep.stays
  obtain ⟨host, hh⟩ := hr.ownership.exists_host (hpool ▸ hv) hs
  obtain ⟨load, _, _, _, hl, -⟩ := Planner.moveDemand_eq_ok hstep.ne (hstep.view vm hv)
  have hcpu := Planner.cpuUtilization_eq_ok hl hh
  have hram := Planner.ramUtilization_eq_ok hl hh
  obtain ⟨t, ht, hview⟩ : ∃ t, Tally.empty.following pool earlier = .ok t
      ∧ t.view pool = q.view := hplanned.following_eq_ok (t := Tally.empty) rfl
  obtain ⟨read, last, hread, hlast⟩ := Tally.utilizations_eq_ok (hview ▸ hcpu) (hview ▸ hram)
  refine ⟨t, _, _, read, last, ht, hread, hlast, ?_⟩
  by_cases hfirst : ∃ x ∈ earlier, x.source = m.source
  · have hrelieved := hneeded hfirst
    rw [Planner.isRelieved_eq_ok (hpool.symm ▸ hcpu) (hpool.symm ▸ hram), Except.ok.injEq,
      decide_eq_false_iff_not] at hrelieved
    exact .inl hrelieved
  · -- Nothing was taken off the host yet, and nothing was moved to it.
    have hothers : ∀ x ∈ earlier, x.source ≠ m.source := fun x hx heq => hfirst ⟨x, hx, heq⟩
    rw [hplanned.load_eq fun x hx => ⟨hothers x hx, htargets x hx⟩, Planner.outlook_start] at hl
    obtain ⟨hcpuNow, hramNow⟩ := Tally.utilization_of_current hh hl
    exact .inr ⟨hothers, hcpuNow, hramNow, hstatus⟩

/-- Four VMs that use a host fully, and a host without VMs. -/
def fullRun : List (Pool.Op α) :=
  let host : HostSpec α := ⟨"host", 4, 1000.0, 8192, 1000, 100000, .linear 200.0 0.5⟩
  let vm (mips : α) : VmSpec α := ⟨"tenant", 1, mips, 1024, 100, 1000⟩
  [.addHost host, .addHost host, .addVm (vm 400.0), .addVm (vm 800.0), .addVm (vm 1600.0),
    .addVm (vm 1200.0), .allocate 0 0, .allocate 1 0, .allocate 2 0, .allocate 3 0]

/-- Relieves hosts above eight tenths. -/
def reliefPolicy : SingleThreshold α := .ofThresholds ⟨0.8, 0.2⟩

theorem fullRun_second_needed : ∃ (pool : Pool Float) (first second : Migration Float)
    (policy : SingleThreshold Float), Pool.empty.run fullRun = .ok pool ∧ pool.Reachable
    ∧ (AllocationPolicy.optimize reliefPolicy pool (.ofLength 2) 1).result
      = .ok ([first] ++ [second], policy)
    ∧ second.reason = .distribute ∧ first.source = 0 ∧ second.source = 0
    ∧ ∃ t cpu ram read last, Tally.empty.following pool [first] = .ok t
      ∧ t.cpuUtilization pool 0 = .ok (cpu, read) ∧ read.ramUtilization pool 0 = .ok (ram, last)
      ∧ ¬(cpu < (reliefPolicy : SingleThreshold Float).thresholds.upper
        ∧ ram < (reliefPolicy : SingleThreshold Float).thresholds.upper) := by
  have hrun : (Pool.empty.run (fullRun : List (Pool.Op Float))).toOption.any (fun pool =>
      (AllocationPolicy.optimize (reliefPolicy : SingleThreshold Float) pool (.ofLength 2)
        1).result.toOption.any fun r =>
          r.1.map (fun m => (m.vm, m.source, m.target, m.reason))
            == [(0, 0, 1, .distribute), (1, 0, 1, .distribute)]) = true := by
    decide +kernel
  obtain ⟨pool, hp, htest⟩ := Checked.eq_ok_of_any hrun
  obtain ⟨⟨plan, policy⟩, hoptimize, hmoves⟩ := Checked.eq_ok_of_any htest
  have hr := Pool.reachable_of_run hp
  obtain ⟨first, rest, rfl, hfirst, hrest⟩ := List.map_eq_cons_iff.mp (beq_iff_eq.mp hmoves)
  obtain ⟨second, rfl, hsecond⟩ := List.map_eq_singleton_iff.mp hrest
  simp only [Prod.mk.injEq] at hfirst hsecond
  have hplan : [first, second] = [first] ++ second :: [] := rfl
  obtain ⟨t, cpu, ram, read, last, ht, hcpu, hram, hneeded⟩ :=
    moves_are_needed hr hoptimize hplan hsecond.2.2.2
  rw [hsecond.2.1] at hcpu hram
  refine ⟨pool, first, second, policy, hp, hr, hoptimize, hsecond.2.2.2, hfirst.2.1, hsecond.2.1,
    t, cpu, ram, read, last, ht, hcpu, hram, hneeded.resolve_right fun hexcepted => ?_⟩
  exact hexcepted.1 first List.mem_cons_self (hfirst.2.1.trans hsecond.2.1.symm)

/-- Three VMs that use most of a host, and a host without VMs. -/
def calmingRun : List (Pool.Op α) :=
  let host : HostSpec α := ⟨"host", 4, 1000.0, 8192, 1000, 100000, .linear 200.0 0.5⟩
  let vm (mips : α) : VmSpec α := ⟨"tenant", 1, mips, 1024, 100, 1000⟩
  [.addHost host, .addHost host, .addVm (vm 1600.0), .addVm (vm 1200.0), .addVm (vm 1000.0),
    .allocate 0 0, .allocate 1 0, .allocate 2 0]

/-- A VM leaves after a sample was taken. The host has come below the threshold, and still a VM is
moved off it. -/
theorem calmingRun_moves_needlessly : ∃ (before pool : Pool Float) (monitoring : Monitoring Float)
    (m : Migration Float) (policy : SingleThreshold Float) (cpu ram : Float)
    (read last : Tally Float),
    Pool.empty.run calmingRun = .ok before
    ∧ (Monitoring.ofLength 2).collect before = .ok monitoring
    ∧ before.run [.release 2] = .ok pool ∧ pool.Reachable
    ∧ (AllocationPolicy.optimize reliefPolicy pool monitoring 1).result = .ok ([m], policy)
    ∧ m.reason = .distribute ∧ m.source = 0
    ∧ Tally.empty.cpuUtilization pool 0 = .ok (cpu, read)
    ∧ read.ramUtilization pool 0 = .ok (ram, last)
    ∧ cpu < (reliefPolicy : SingleThreshold Float).thresholds.upper
    ∧ ram < (reliefPolicy : SingleThreshold Float).thresholds.upper := by
  have hrun : (Pool.empty.run (calmingRun : List (Pool.Op Float))).toOption.any (fun before =>
      ((Monitoring.ofLength 2).collect before).toOption.any fun monitoring =>
        (before.run [.release 2]).toOption.any fun pool =>
          ((AllocationPolicy.optimize (reliefPolicy : SingleThreshold Float) pool monitoring
            1).result.toOption.any fun r =>
              r.1.map (fun m => (m.vm, m.source, m.target, m.reason)) == [(0, 0, 1, .distribute)])
          && ((Tally.empty : Tally Float).cpuUtilization pool 0).toOption.any fun r =>
            decide (r.1 < (reliefPolicy : SingleThreshold Float).thresholds.upper)
              && (r.2.ramUtilization pool 0).toOption.any fun r =>
                decide (r.1 < (reliefPolicy : SingleThreshold Float).thresholds.upper)) = true := by
    decide +kernel
  obtain ⟨before, hbefore, htest⟩ := Checked.eq_ok_of_any hrun
  obtain ⟨monitoring, hmonitoring, htest⟩ := Checked.eq_ok_of_any htest
  obtain ⟨pool, hp, htest⟩ := Checked.eq_ok_of_any htest
  rw [Bool.and_eq_true] at htest
  obtain ⟨hplanned, hasked⟩ := htest
  obtain ⟨⟨plan, policy⟩, hoptimize, hmoves⟩ := Checked.eq_ok_of_any hplanned
  obtain ⟨⟨cpu, read⟩, hcpu, hbelow⟩ := Checked.eq_ok_of_any hasked
  rw [Bool.and_eq_true] at hbelow
  obtain ⟨⟨ram, last⟩, hram, hramBelow⟩ := Checked.eq_ok_of_any hbelow.2
  have hr : pool.Reachable :=
    (Pool.reachable_of_run hbefore).run (fun _ _ => trivial) hp
  obtain ⟨m, rfl, hm⟩ := List.map_eq_singleton_iff.mp (beq_iff_eq.mp hmoves)
  simp only [Prod.mk.injEq] at hm
  exact ⟨before, pool, monitoring, m, policy, cpu, ram, read, last, hbefore, hmonitoring, hp, hr,
    hoptimize, hm.2.2.2, hm.2.1, hcpu, hram, of_decide_eq_true hbelow.1,
    of_decide_eq_true hramBelow⟩

end SingleThreshold

end Datacenter
