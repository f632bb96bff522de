import Datacenter.Proofs.Passes
import Datacenter.Proofs.PlanAtomicity

/-!
# What is reported of a plan

A plan that is accepted is reported row by row, in its order and at the current time. The rows are
those of the plan: the pool decides where a VM moves from, and the row repeats where the plan says.
The two agree if the plan was made for the pool that it is applied to, as a pass does.

Main statements: `ofLog_fold_launch`, `ofLog_applyPlan` and `resident_of_optimize`.
-/

namespace Datacenter

variable {α : Type} [Scalar α]

namespace Simulation

variable {π : Type} {sim sim' : Simulation α π} {plan : List (Migration α)}

/-! ### Rows -/

/-- The row of a migration that is started now. -/
def rowOf (sim : Simulation α π) (m : Migration α) : MigrationRecord α :=
  { m with time := some sim.time }.toRecord sim.config.name

theorem launch_reports {m : Migration α} (h : (sim.launch m).result = .ok sim') :
    Report.ofLog (sim.launch m).events = [sim.rowOf m] ∧ sim'.rowOf = sim.rowOf := by
  simp only [launch, Logged.result_bind, Logged.result_lift, Checked.bind_eq_ok_iff] at h
  obtain ⟨vm, hv, u, -, h⟩ := h
  cases h
  rw [launch, hv]
  exact ⟨rfl, rfl⟩

/-- Launching a plan reports each of its migrations, in order. -/
theorem ofLog_fold_launch (h : (Logged.fold launch sim plan).result = .ok sim') :
    Report.ofLog (Logged.fold launch sim plan).events = plan.map sim.rowOf := by
  rw [Logged.fold_eq_foldlM] at h ⊢
  induction plan generalizing sim with
  | nil => rfl
  | cons m rest ih =>
    rw [List.foldlM_cons, Logged.result_bind, Checked.bind_eq_ok_iff] at h
    obtain ⟨next, hnext, hrest⟩ := h
    obtain ⟨hrow, hsame⟩ := launch_reports hnext
    have happend : ∀ first later : List (LogEntry α),
        Report.ofLog (first ++ later) = Report.ofLog first ++ Report.ofLog later :=
      fun _ _ => List.filterMap_append
    rw [List.foldlM_cons, Logged.events_bind_of_ok hnext, happend, hrow, ih hrest, hsame,
      List.map_cons, List.singleton_append]

variable [AllocationPolicy α π]

theorem ofLog_applyPlan {n : Nat} (h : (sim.applyPlan plan).result = .ok (.ok n, sim')) :
    Report.ofLog (sim.applyPlan plan).events = plan.map sim.rowOf := by
  rw [applyPlan] at h ⊢
  split at h
  · rename_i hempty
    rw [if_pos hempty, List.isEmpty_iff.mp hempty]
    rfl
  · rename_i hne
    rw [if_neg hne]
    simp only [Logged.result_bind, Logged.result_lift, Checked.bind_eq_ok_iff] at h
    obtain ⟨⟨pool, rejection?⟩, hstart, h⟩ := h
    simp only [hstart, Logged.lift_ok_bind]
    cases rejection? with
    | none =>
      simp only [Logged.result_bind, Checked.bind_eq_ok_iff] at h
      obtain ⟨last, hlast, -⟩ := h
      rw [Logged.events_bind_of_ok hlast, Logged.events_pure, List.append_nil,
        ofLog_fold_launch hlast]
      rfl
    | some rejection =>
      simp only [Logged.result_bind, Checked.bind_eq_ok_iff] at h
      obtain ⟨_, -, _, -, h⟩ := h
      cases h

/-- The plan of a pass names the hosts that its VMs run on. -/
theorem resident_of_optimize {pool : Pool α} (own : pool.Ownership)
    {policy policy' : SingleThreshold α} {monitoring : Monitoring α} {id : Nat}
    {ms : List (Migration α)}
    (h : (AllocationPolicy.optimize policy pool monitoring id).result = .ok (ms, policy')) :
    ∀ m ∈ ms, pool.IsResident m.source m.vm := by
  intro m hm
  obtain ⟨p, hplanned⟩ :=
    SingleThreshold.planned_of_plan own (SingleThreshold.plan_of_optimize h).1
  obtain ⟨vm, hv, hs, -⟩ := (hplanned.suits m hm).stays
  exact (own.isResident_iff m.source m.vm).mpr ⟨vm, hv, hs⟩

variable [KeepsLedger α π]

/-- A plan that is accepted is reported with one row for each of its migrations, in its order and at
the current time. Each VM runs on the same host as before, and the target of its row expects it. The
source of its row is that host exactly if the plan names it, and plans of a pass do. A plan that is
rejected adds no row. -/
theorem accepted_plan_is_reported {rates : α → Prop} (hr : sim.Reachable rates)
    {answer : Except PlanRejection Nat} (h : (sim.applyPlan plan).result = .ok (answer, sim')) :
    (∀ n, answer = .ok n →
      Report.ofLog (sim.applyPlan plan).events = plan.map sim.rowOf
      ∧ ∀ m ∈ plan, (sim.rowOf m).time = sim.time ∧ (sim.rowOf m).vm = m.vm
        ∧ sim'.pool.IsIncoming (sim.rowOf m).target m.vm
        ∧ ∃ s, (∀ g, sim.pool.IsResident g m.vm ↔ g = s)
          ∧ (∀ g, sim'.pool.IsResident g m.vm ↔ g = s)
          ∧ ((sim.rowOf m).source = s ↔ sim.pool.IsResident m.source m.vm))
    ∧ (∀ (policy policy' : SingleThreshold α) monitoring id ms,
      (AllocationPolicy.optimize policy sim.pool monitoring id).result = .ok (ms, policy') →
      ∀ m ∈ ms, sim.pool.IsResident m.source m.vm)
    ∧ ∀ rejection, answer = .error rejection → Report.ofLog (sim.applyPlan plan).events = [] := by
  have own := hr.pool_reachable.ownership
  refine ⟨?_, fun _ _ _ _ _ hpass => resident_of_optimize own hpass, ?_⟩
  · rintro n rfl
    refine ⟨ofLog_applyPlan h, fun m hm => ⟨rfl, rfl, ?_⟩⟩
    rcases applyPlan_cases h with ⟨-, hstart⟩ | ⟨_, _, hrejected, -⟩
    · have own' := own.rearranged (Pool.startPlan_steps hstart)
      obtain ⟨s, hbefore, hafter⟩ := (Pool.startPlan_started hstart).planned m hm
      have hresident := own.isResident_iff_of_placement hbefore
      refine ⟨(own'.isIncoming_iff_of_placement hafter m.target).mpr rfl, s, hresident,
        own'.isResident_iff_of_placement hafter, ?_⟩
      exact (hresident m.source).symm
    · cases hrejected
  · rintro rejection rfl
    rcases applyPlan_cases h with ⟨hok, -⟩ | ⟨between, rejection', -, hstart, hrestore⟩
    · cases hok
    · rw [applyPlan_of_rejected hstart hrestore]
      rfl

/-- A VM moves from the first host to the second one and lands there. -/
def settledRun : List (Command Float) :=
  let host : HostSpec Float := ⟨"host", 4, 1000, 8192, 1000, 100000, .linear 200 0.5⟩
  [.addHost host, .addHost host, .addHost host, .submitVm ⟨"tenant", 1, 500, 1024, 0, 1000⟩,
    .applyPlan [planned 0 0 1], .step]

/-- The VM runs on the second host, and a plan that only consists of this migration is accepted. -/
theorem settledRun_accepts {m : Migration Float}
    (h : ((busyStart.run settledRun).result.toOption.any fun sim =>
      sim.pool.placement 0 == some ⟨some 1, none⟩
        && (sim.applyPlan [m]).result.toOption.any fun r => r.1.toOption == some 1) = true) :
    ∃ sim sim', (busyStart.run settledRun).result = .ok sim ∧ sim.Reachable (fun _ => True)
      ∧ (sim.applyPlan [m]).result = .ok (.ok 1, sim')
      ∧ ∀ g, sim.pool.IsResident g 0 ↔ g = 1 := by
  obtain ⟨sim, hsim, htest⟩ := Checked.eq_ok_of_any h
  rw [Bool.and_eq_true, beq_iff_eq] at htest
  obtain ⟨hplacement, hplan⟩ := htest
  obtain ⟨⟨answer, sim'⟩, happly, hanswer⟩ := Checked.eq_ok_of_any hplan
  have hr := reachable_of_run hsim
  cases answer with
  | error rejection => cases hanswer
  | ok n =>
    have hn : n = 1 := Option.some.inj (beq_iff_eq.mp hanswer)
    subst hn
    exact ⟨sim, sim', hsim, hr, happly,
      hr.pool_reachable.ownership.isResident_iff_of_placement hplacement⟩

/-- A plan that was made before the VM landed is accepted as well. Its row names the host that the
VM has left. -/
theorem settledRun_stale_source : ∃ sim sim', (busyStart.run settledRun).result = .ok sim
    ∧ sim.Reachable (fun _ => True)
    ∧ (sim.applyPlan [planned 0 0 2]).result = .ok (.ok 1, sim')
    ∧ (∃ row ∈ Report.ofLog (sim.applyPlan [planned 0 0 2]).events, row.vm = 0 ∧ row.source = 0)
    ∧ ∀ g, sim.pool.IsResident g 0 ↔ g = 1 := by
  obtain ⟨sim, sim', hsim, hr, happly, hresident⟩ :=
    settledRun_accepts (m := planned 0 0 2) (by decide +kernel)
  refine ⟨sim, sim', hsim, hr, happly, ⟨sim.rowOf (planned 0 0 2), ?_, rfl, rfl⟩, hresident⟩
  rw [ofLog_applyPlan happly]
  exact List.mem_singleton_self _

/-- A plan that knows where the VM runs is reported truthfully. -/
theorem settledRun_reported : ∃ sim sim', (busyStart.run settledRun).result = .ok sim
    ∧ sim.Reachable (fun _ => True)
    ∧ (sim.applyPlan [planned 0 1 2]).result = .ok (.ok 1, sim')
    ∧ Report.ofLog (sim.applyPlan [planned 0 1 2]).events = [sim.rowOf (planned 0 1 2)]
    ∧ sim.pool.IsResident 1 0 ∧ sim'.pool.IsIncoming 2 0 := by
  obtain ⟨sim, sim', hsim, hr, happly, hresident⟩ :=
    settledRun_accepts (m := planned 0 1 2) (by decide +kernel)
  obtain ⟨hrows, htrue⟩ := (accepted_plan_is_reported hr happly).1 1 rfl
  obtain ⟨-, -, htarget, -⟩ := htrue (planned 0 1 2) List.mem_cons_self
  exact ⟨sim, sim', hsim, hr, happly, hrows, (hresident 1).mpr rfl, htarget⟩

end Simulation

end Datacenter
