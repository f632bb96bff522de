import Datacenter.Proofs.Commands
import Datacenter.Proofs.Restoring
import Datacenter.Report

/-!
# Plans are applied as a whole

If a plan is accepted, each of its VMs moves to the planned target. If it is rejected, the hosts of
the plan are evicted and rebuilt, and all hosts and VMs are as before: whatever was around a host of
the plan is restored, and the migrations that were started before the rejected one were all around
such a host.

Main statements: `startPlan_started`, `undo_arranged` and `applyPlan_parts`.
-/

namespace Datacenter

variable {α : Type} [Scalar α]

namespace Pool

variable {pool pool' between : Pool α} {ms : List (Migration α)} {rejection : PlanRejection}

/-! ### Starting a plan -/

/-- The VMs of the plan are different ones that ran somewhere and now move to their targets. The
others are where they were. -/
structure Started (pool : Pool α) (ms : List (Migration α)) (pool' : Pool α) : Prop where
  nodup : (ms.map (·.vm)).Nodup
  planned : ∀ m ∈ ms, ∃ s, pool.placement m.vm = some ⟨some s, none⟩
    ∧ pool'.placement m.vm = some ⟨some s, some m.target⟩
  others : ∀ w, (∀ m ∈ ms, m.vm ≠ w) → pool'.placement w = pool.placement w

omit [Scalar α] in
theorem Started.cons {m : Migration α} {s : HostId}
    (hbefore : pool.placement m.vm = some ⟨some s, none⟩)
    (hstep : ∀ w, between.placement w
      = if w = m.vm then some ⟨some s, some m.target⟩ else pool.placement w)
    (h : Started between ms pool') : Started pool (m :: ms) pool' := by
  have hnow : between.placement m.vm = some ⟨some s, some m.target⟩ := by
    rw [hstep, if_pos rfl]
  -- A VM that already moves is not started once more.
  have hfresh : ∀ x ∈ ms, x.vm ≠ m.vm := by
    intro x hx heq
    obtain ⟨g, hg, -⟩ := h.planned x hx
    rw [heq, hnow] at hg
    cases hg
  have hkept : ∀ w, w ≠ m.vm → between.placement w = pool.placement w := by
    intro w hw
    rw [hstep, if_neg hw]
  refine ⟨?_, ?_, ?_⟩
  · rw [List.map_cons, List.nodup_cons]
    refine ⟨fun hmem => ?_, h.nodup⟩
    obtain ⟨x, hx, heq⟩ := List.mem_map.mp hmem
    exact hfresh x hx heq
  · intro x hx
    rcases List.mem_cons.mp hx with rfl | hx
    · exact ⟨s, hbefore, (h.others x.vm hfresh).trans hnow⟩
    · obtain ⟨g, hg, hafter⟩ := h.planned x hx
      exact ⟨g, (hkept x.vm (hfresh x hx)) ▸ hg, hafter⟩
  · intro w hw
    have hne : w ≠ m.vm := Ne.symm (hw m List.mem_cons_self)
    have hrest := h.others w fun x hx => hw x (List.mem_cons_of_mem _ hx)
    exact hrest.trans (hkept w hne)

theorem startPlan_started (h : pool.startPlan ms = .ok (pool', none)) :
    Started pool ms pool' := by
  induction ms generalizing pool with
  | nil =>
    rw [startPlan, Except.ok.injEq, Prod.mk.injEq] at h
    obtain ⟨rfl, -⟩ := h
    exact ⟨List.nodup_nil, List.forall_mem_nil _, fun _ _ => rfl⟩
  | cons m rest ih =>
    rcases startPlan_cons_eq_ok h with ⟨between, hstart, hrest⟩ | ⟨reason, -, -, hnone⟩
    · obtain ⟨s, hbefore, -, hstep⟩ := startMigration_placement hstart
      exact .cons hbefore hstep (ih hrest)
    · cases hnone

/-- A plan is rejected because of its first migration that is refused. Those before it have been
started. -/
theorem startPlan_rejected (h : pool.startPlan ms = .ok (pool', some rejection)) :
    ∃ started m later, ms = started ++ m :: later ∧ pool.startPlan started = .ok (pool', none)
      ∧ ∃ reason, pool'.startMigration m.vm m.target = .refused reason
        ∧ rejection = ⟨m.vm, m.target, reason⟩ := by
  induction ms generalizing pool with
  | nil => cases h
  | cons m rest ih =>
    rcases startPlan_cons_eq_ok h with ⟨between, hstart, hrest⟩ | ⟨reason, hstart, rfl, hreason⟩
    · obtain ⟨started, x, later, rfl, hstarted, hrefused⟩ := ih hrest
      refine ⟨m :: started, x, later, rfl, ?_, hrefused⟩
      rw [startPlan, hstart]
      exact hstarted
    · exact ⟨[], m, rest, rfl, rfl, reason, hstart, Option.some.inj hreason⟩

/-! ### What is evicted and restored -/

omit [Scalar α] in
theorem contains_planHosts_iff (ms : List (Migration α)) (h : HostId) :
    (planHosts ms).contains h = true ↔ ∃ m ∈ ms, h = m.source ∨ h = m.target := by
  rw [planHosts, Std.TreeSet.contains_ofList, List.contains_iff_mem, List.mem_flatMap]
  simp only [List.mem_cons, List.not_mem_nil, or_false]

theorem mem_vmsAround_iff (own : pool.Ownership) (hosts : Std.TreeSet HostId) (v : VmId) :
    v ∈ pool.vmsAround hosts
      ↔ ∃ p, pool.placement v = some p ∧ ∃ h, hosts.contains h = true ∧ p.IsAround h := by
  have haround : ∀ vm : Vm α,
      (vm.host.any hosts.contains || vm.migrationTarget.any hosts.contains) = true
        ↔ ∃ h, hosts.contains h = true ∧ (vm.host = some h ∨ vm.migrationTarget = some h) := by
    intro vm
    rw [Bool.or_eq_true, Option.any_eq_true, Option.any_eq_true]
    constructor
    · rintro (⟨h, hh, hc⟩ | ⟨h, ht, hc⟩)
      · exact ⟨h, hc, .inl hh⟩
      · exact ⟨h, hc, .inr ht⟩
    · rintro ⟨h, hc, hh | ht⟩
      · exact .inl ⟨h, hh, hc⟩
      · exact .inr ⟨h, ht, hc⟩
  rw [vmsAround, List.mem_map]
  constructor
  · rintro ⟨vm, hmem, rfl⟩
    rw [List.mem_filter] at hmem
    obtain ⟨w, hw⟩ := (Table.mem_values_iff _ _).mp hmem.1
    have hid := (own.vm_id w vm hw).1
    rw [hid]
    exact ⟨_, placement_of_get? hw, (haround vm).mp hmem.2⟩
  · rintro ⟨⟨p, t⟩, hp, h, hc, hp'⟩
    obtain ⟨vm, hv, rfl, rfl⟩ := (placement_eq_some_iff _ _ _).mp hp
    refine ⟨vm, List.mem_filter.mpr ⟨?_, (haround vm).mpr ⟨h, hc, hp'⟩⟩, (own.vm_id v vm hv).1⟩
    exact (Table.mem_values_iff _ _).mpr ⟨v, hv⟩

theorem mem_vmsAround_of_isAround (own : pool.Ownership) (hosts : Std.TreeSet HostId) (v : VmId)
    (p : Placement) (hp : pool.placement v = some p) (h : ∃ g ∈ hosts.toList, p.IsAround g) :
    v ∈ pool.vmsAround hosts := by
  obtain ⟨g, hg, haround⟩ := h
  rw [Std.TreeSet.mem_toList, Std.TreeSet.mem_iff_contains] at hg
  exact (mem_vmsAround_iff own hosts v).mpr ⟨p, hp, g, hg, haround⟩

/-- A rejected plan is undone without a trace on hosts and VMs. -/
theorem undo_arranged (own : pool.Ownership)
    (hstart : pool.startPlan ms = .ok (between, some rejection))
    (hrestore : Ledger.tryRestore ⟨some (.capture pool pool.vmIds)⟩ between
      (between.vmsAround (planHosts ms)) (planHosts ms).toList = .ok ⟨pool', none⟩) :
    pool.Arranged pool' := by
  have hsteps := startPlan_steps hstart
  have hback := Ledger.tryRestore_steps hrestore
  have own' := own.rearranged hsteps
  refine ⟨(hsteps.trans hback).sameHosts, (hsteps.trans hback).sameVms, fun w => ?_⟩
  rw [Ledger.tryRestore_placement own hsteps (mem_vmsAround_of_isAround own' _) hrestore]
  split
  · rfl
  · rename_i hw
    obtain ⟨started, m, later, hms, hstarted, -⟩ := startPlan_rejected hstart
    refine (startPlan_started hstarted).others w ?_
    -- A started VM moves to a host of the plan, so it is restored.
    rintro x hx rfl
    obtain ⟨s, -, hnow⟩ := (startPlan_started hstarted).planned x hx
    refine hw ((mem_vmsAround_iff own' _ x.vm).mpr ⟨_, hnow, x.target, ?_, .inr rfl⟩)
    rw [contains_planHosts_iff, hms]
    exact ⟨x, List.mem_append_left _ hx, .inr rfl⟩

end Pool

/-! ### Applying a plan -/

omit [Scalar α] in
theorem Logged.lift_ok_bind {β γ : Type} (value : β) (f : β → Logged α γ) :
    ((liftM (.ok value : Checked β) : Logged α β) >>= f) = f value := rfl

omit [Scalar α] in
/-- What holds at first, and is kept by acting on each item, holds at last. -/
theorem Logged.fold_invariant {β γ : Type} {P : β → Prop} {act : β → γ → Logged α β}
    {state last : β} {items : List γ} (hstart : P state)
    (keeps : ∀ state item next, item ∈ items → P state → (act state item).result = .ok next →
      P next)
    (h : (Logged.fold act state items).result = .ok last) : P last := by
  rw [fold_eq_foldlM] at h
  induction items generalizing state with
  | nil => exact Except.ok.inj h ▸ hstart
  | cons item rest ih =>
    rw [List.foldlM_cons, Logged.result_bind, Checked.bind_eq_ok_iff] at h
    obtain ⟨next, hnext, hrest⟩ := h
    refine ih (keeps state item next List.mem_cons_self hstart hnext) ?_ hrest
    exact fun state item next hitem => keeps state item next (List.mem_cons_of_mem _ hitem)

theorem Ledger.restore_eq_pure {ledger : Ledger} {pool pool' : Pool α} {vms : List VmId}
    {hosts : List HostId} (h : ledger.tryRestore pool vms hosts = .ok ⟨pool', none⟩) :
    ledger.restore pool vms hosts = Pure.pure pool' := by
  rw [Ledger.restore, h]
  rfl

theorem Ledger.tryRestore_of_restore {ledger : Ledger} {pool pool' : Pool α} {vms : List VmId}
    {hosts : List HostId} (h : (ledger.restore pool vms hosts).result = .ok pool') :
    ledger.tryRestore pool vms hosts = .ok ⟨pool', none⟩ := by
  simp only [Ledger.restore, Logged.result_bind, Logged.result_lift, Checked.bind_eq_ok_iff] at h
  obtain ⟨⟨last, failure⟩, hr, h⟩ := h
  cases failure with
  | some failure => cases h
  | none =>
    cases h
    exact hr

namespace Simulation

variable {π : Type} {sim sim' : Simulation α π} {plan : List (Migration α)}

/-- Launching writes nothing but what is in flight and how many migrations have been started. -/
theorem fold_launch_eq (h : (Logged.fold launch sim plan).result = .ok sim') :
    sim' = { sim with inFlight := sim'.inFlight, started := sim'.started } := by
  refine Logged.fold_invariant (P := fun last => last
    = { sim with inFlight := last.inFlight, started := last.started }) rfl ?_ h
  intro state m next _ hstate hnext
  simp only [launch, Logged.result_bind, Logged.result_lift, Checked.bind_eq_ok_iff] at hnext
  obtain ⟨vm, -, _, -, hnext⟩ := hnext
  cases hnext
  rw [hstate]

variable [AllocationPolicy α π]

/-- The policy has saved the placements of all VMs. -/
def saved (sim : Simulation α π) : Simulation α π :=
  { sim with policy := AllocationPolicy.save sim.policy sim.pool sim.pool.vmIds }

/-- An empty plan does nothing, a plan that can be started is put in flight, and for one that is
rejected the policy restores what was there. -/
theorem applyPlan_parts {answer : Except PlanRejection Nat}
    (h : (sim.applyPlan plan).result = .ok (answer, sim')) :
    (plan = [] ∧ answer = .ok 0 ∧ sim' = sim)
    ∨ (∃ pool last, sim.pool.startPlan plan = .ok (pool, none)
      ∧ (Logged.fold launch { sim.saved with pool } plan).result = .ok last
      ∧ answer = .ok plan.length ∧ sim' = last.meterPower)
    ∨ ∃ between rejection pool, sim.pool.startPlan plan = .ok (between, some rejection)
      ∧ (AllocationPolicy.restore sim.saved.policy between (between.vmsAround (planHosts plan))
        (planHosts plan).toList).result = .ok pool
      ∧ answer = .error rejection ∧ sim' = { sim.saved with pool } := by
  rw [applyPlan] at h
  split at h
  · rename_i hempty
    cases h
    exact .inl ⟨List.isEmpty_iff.mp hempty, rfl, rfl⟩
  · simp only [Logged.result_bind, Logged.result_lift, Checked.bind_eq_ok_iff] at h
    obtain ⟨⟨pool, rejection?⟩, hstart, h⟩ := h
    cases rejection? with
    | none =>
      simp only [Logged.result_bind, Checked.bind_eq_ok_iff] at h
      obtain ⟨last, hlast, h⟩ := h
      cases h
      exact .inr (.inl ⟨pool, last, hstart, hlast, rfl, rfl⟩)
    | some rejection =>
      simp only [Logged.result_bind, Checked.bind_eq_ok_iff] at h
      obtain ⟨_, -, restored, hrestored, h⟩ := h
      cases h
      exact .inr (.inr ⟨pool, rejection, restored, hstart, hrestored, rfl, rfl⟩)

variable [KeepsLedger α π]

/-- A plan that is rejected and can be undone records its rejection, and changes the pool and the
snapshot that the policy keeps. -/
theorem applyPlan_of_rejected {between pool : Pool α} {rejection : PlanRejection}
    (hstart : sim.pool.startPlan plan = .ok (between, some rejection))
    (hrestore : Ledger.tryRestore ⟨some (.capture sim.pool sim.pool.vmIds)⟩ between
      (between.vmsAround (planHosts plan)) (planHosts plan).toList = .ok ⟨pool, none⟩) :
    sim.applyPlan plan = ⟨[sim.stamped (.planRejected rejection)], .ok (.error rejection,
      { sim with pool, policy := AllocationPolicy.save sim.policy sim.pool sim.pool.vmIds })⟩ := by
  have hne : ¬plan.isEmpty = true := by
    intro hempty
    rw [List.isEmpty_iff.mp hempty] at hstart
    cases hstart
  have hpure : ((KeepsLedger.ledger sim.policy).save sim.pool sim.pool.vmIds).restore between
      (between.vmsAround (planHosts plan)) (planHosts plan).toList = Pure.pure pool :=
    Ledger.restore_eq_pure hrestore
  simp only [applyPlan, if_neg hne, hstart, Logged.lift_ok_bind, KeepsLedger.restore_eq,
    KeepsLedger.ledger_save, hpure]
  rfl

/-- What a policy restores after it has saved all placements is restored from those. -/
theorem tryRestore_of_restore_saved {between pool : Pool α} {vms : List VmId}
    {hosts : List HostId}
    (h : (AllocationPolicy.restore sim.saved.policy between vms hosts).result = .ok pool) :
    Ledger.tryRestore ⟨some (.capture sim.pool sim.pool.vmIds)⟩ between vms hosts
      = .ok ⟨pool, none⟩ := by
  simp only [saved, KeepsLedger.restore_eq, KeepsLedger.ledger_save] at h
  exact Ledger.tryRestore_of_restore h

/-- Either all migrations were started, or one was rejected and those before it are undone. -/
theorem applyPlan_cases {answer : Except PlanRejection Nat}
    (h : (sim.applyPlan plan).result = .ok (answer, sim')) :
    (answer = .ok plan.length ∧ sim.pool.startPlan plan = .ok (sim'.pool, none))
    ∨ ∃ between rejection, answer = .error rejection
      ∧ sim.pool.startPlan plan = .ok (between, some rejection)
      ∧ Ledger.tryRestore ⟨some (.capture sim.pool sim.pool.vmIds)⟩ between
        (between.vmsAround (planHosts plan)) (planHosts plan).toList = .ok ⟨sim'.pool, none⟩ := by
  rcases applyPlan_parts h with ⟨rfl, rfl, rfl⟩ | ⟨pool, last, hstart, hlast, rfl, rfl⟩ |
    ⟨between, rejection, pool, hstart, hrestore, rfl, rfl⟩
  · exact .inl ⟨rfl, rfl⟩
  · refine .inl ⟨rfl, ?_⟩
    rw [fold_launch_eq hlast]
    exact hstart
  · exact .inr ⟨between, rejection, rfl, hstart, tryRestore_of_restore_saved hrestore⟩

/-! ### All or nothing -/

/-- A plan that is accepted has all its VMs migrate to their planned targets, and touches no other
one. A plan that is rejected leaves all VMs and hosts, and all that the simulation keeps beside
them, as they were, and nothing is reported. -/
theorem applyPlan_all_or_nothing {sim sim' : Simulation α (SingleThreshold α)}
    (hr : sim.Reachable fun _ => True) (plan : List (Migration α))
    {answer : Except PlanRejection Nat} (h : (sim.applyPlan plan).result = .ok (answer, sim')) :
    (∀ n, answer = .ok n →
      n = plan.length
      ∧ (∀ m ∈ plan, ∃ s, sim.pool.placement m.vm = some ⟨some s, none⟩
        ∧ sim'.pool.placement m.vm = some ⟨some s, some m.target⟩)
      ∧ ∀ v, (∀ m ∈ plan, m.vm ≠ v) → sim'.pool.placement v = sim.pool.placement v)
    ∧ ∀ rejection, answer = .error rejection →
      (∀ v, sim'.pool.placement v = sim.pool.placement v)
      ∧ (∀ g, Option.Rel Host.Alike (sim.pool.hosts.get? g) (sim'.pool.hosts.get? g))
      ∧ sim' = { sim with policy := sim'.policy, pool := sim'.pool }
      ∧ Report.ofLog (sim.applyPlan plan).events = [] := by
  rcases applyPlan_cases h with ⟨rfl, hstart⟩ | ⟨between, rejection, rfl, hstart, hrestore⟩
  · have hstarted := Pool.startPlan_started hstart
    refine ⟨fun n hn => ?_, fun rejection hrejection => ?_⟩
    · cases hn
      exact ⟨rfl, hstarted.planned, hstarted.others⟩
    · cases hrejection
  · have happly := applyPlan_of_rejected hstart hrestore
    rw [happly, Except.ok.injEq, Prod.mk.injEq] at h
    obtain ⟨-, hsim⟩ := h
    have hpool := hr.pool_reachable
    have hback := (Pool.startPlan_steps hstart).trans (Ledger.tryRestore_steps hrestore)
    have harranged := Pool.undo_arranged hpool.ownership hstart hrestore
    refine ⟨fun n hn => ?_, fun _ _ => ⟨harranged.placement, ?_, ?_, ?_⟩⟩
    · cases hn
    · exact harranged.hosts_alike hpool (hback.reachable hpool)
    · rw [← hsim]
    · rw [happly]
      rfl

/-- A migration as it is handed over in a plan. -/
def planned (vm : VmId) (source target : HostId) : Migration Float :=
  ⟨vm, source, target, 7, .distribute, ⟨0, 0, 0⟩, ⟨0, 0, 0⟩, none⟩

/-- Three VMs start on the first host. The second one moves to the second host and lands there, and
the first one is on its way to it. -/
def busyRun : List (Command Float) :=
  let host : HostSpec Float := ⟨"host", 4, 1000, 8192, 1000, 100000, .linear 200 0.5⟩
  let vm (mips : Float) (bandwidth : UInt64) : VmSpec Float :=
    ⟨"tenant", 1, mips, 1024, bandwidth, 1000⟩
  [.addHost host, .addHost host, .addHost host, .submitVm (vm 500 400), .submitVm (vm 700 0),
    .submitVm (vm 300 100), .applyPlan [planned 1 0 1], .step, .applyPlan [planned 0 0 1]]

/-- A simulation that makes steps of half a minute and plans nothing itself. -/
def busyStart : Simulation Float (SingleThreshold Float) :=
  let thresholds : Thresholds Float := ⟨0.8, 0.3⟩
  create ⟨"datacenter", "SingleThreshold", thresholds, 30, 30, 3, false, 0.5, [], []⟩
    (.ofThresholds thresholds) 7

/-- The first two migrations can be started, the first one in spite of its wrong source. -/
def tangledPlan : List (Migration Float) := [planned 1 0 2, planned 2 0 1, planned 0 0 2]

theorem tangledPlan_undone : ∃ sim sim', (busyStart.run busyRun).result = .ok sim
    ∧ sim.Reachable (fun _ => True)
    ∧ (sim.applyPlan tangledPlan).result = .ok (.error ⟨0, 2, .vmMigrating⟩, sim')
    ∧ sim.pool.placement 0 = some ⟨some 0, some 1⟩ ∧ sim.pool.placement 1 = some ⟨some 1, none⟩
    ∧ (∀ v, sim'.pool.placement v = sim.pool.placement v)
    ∧ (∀ g, Option.Rel Host.Alike (sim.pool.hosts.get? g) (sim'.pool.hosts.get? g))
    ∧ sim' = { sim with policy := sim'.policy, pool := sim'.pool }
    ∧ Report.ofLog (sim.applyPlan tangledPlan).events = [] := by
  have hrun : ((busyStart.run busyRun).result.toOption.any fun sim =>
      sim.pool.placement 0 == some ⟨some 0, some 1⟩
        && sim.pool.placement 1 == some ⟨some 1, none⟩
        && (sim.applyPlan tangledPlan).result.toOption.any fun r =>
          match r.1 with
          | .ok _ => false
          | .error rejection => rejection == ⟨0, 2, .vmMigrating⟩) = true := by
    decide +kernel
  obtain ⟨sim, hsim, htest⟩ := Checked.eq_ok_of_any hrun
  rw [Bool.and_eq_true, Bool.and_eq_true, beq_iff_eq, beq_iff_eq] at htest
  obtain ⟨⟨hfirst, hsecond⟩, hplan⟩ := htest
  obtain ⟨⟨answer, sim'⟩, happly, hanswer⟩ := Checked.eq_ok_of_any hplan
  have hr := reachable_of_run hsim
  cases answer with
  | ok n => cases hanswer
  | error rejection =>
    have hrejection : rejection = ⟨0, 2, .vmMigrating⟩ := beq_iff_eq.mp hanswer
    subst hrejection
    obtain ⟨hplacements, hhosts, hrest, hreport⟩ :=
      (applyPlan_all_or_nothing hr tangledPlan happly).2 _ rfl
    exact ⟨sim, sim', hsim, hr, happly, hfirst, hsecond, hplacements, hhosts, hrest, hreport⟩

end Simulation

end Datacenter
