import Datacenter.Policy.Scripted
import Datacenter.Policy.SingleThreshold
import Datacenter.Proofs.Moves
import Datacenter.Proofs.PlanStart

/-!
# Commands to a simulation

A simulation is run by commands: hosts and VMs are added, VMs are placed, released and resized,
plans are applied, passes are run and steps are made. Each command is a chain of moves, whatever
policy decides as long as it saves and restores placements by a ledger. So the pool of a simulation
that commands lead to is reachable.

Main statements: `traces_obey`, `traces_run` and `Reachable.pool_reachable`.
-/

namespace Datacenter

/-! ### Settled outcomes -/

namespace Outcome

variable {ε β : Type}

@[simp] theorem settled_eq_ok_iff (x : Outcome ε β) (value : β) :
    x.settled = .ok (.ok value) ↔ x = done value := by
  cases x <;> simp [settled]

@[simp] theorem settled_eq_error_iff (x : Outcome ε β) (reason : ε) :
    x.settled = .ok (.error reason) ↔ x = refused reason := by
  cases x <;> simp [settled]

end Outcome

variable {α π : Type} [Scalar α]

/-! ### Policies that keep a ledger -/

/-- The policy saves and restores placements by a ledger, and its passes tell of no changes. -/
class KeepsLedger (α : outParam Type) (π : Type) [Scalar α] [AllocationPolicy α π] where
  ledger : π → Ledger
  ledger_save : ∀ (policy : π) (pool : Pool α) (vms : List VmId),
    ledger (AllocationPolicy.save policy pool vms) = (ledger policy).save pool vms
  restore_eq : ∀ (policy : π) (pool : Pool α) (vms : List VmId) (hosts : List HostId),
    AllocationPolicy.restore policy pool vms hosts = (ledger policy).restore pool vms hosts
  optimize_neutral : ∀ (policy : π) (pool : Pool α) (monitoring : Monitoring α) (id : Nat),
    ∀ entry ∈ (AllocationPolicy.optimize policy pool monitoring id).events,
      entry.event.isNeutral = true

namespace Logged

/-- All that the action records is neutral. -/
def IsNeutral {β : Type} (x : Logged α β) : Prop := ∀ entry ∈ x.events, entry.event.isNeutral = true

namespace IsNeutral

variable {β γ : Type}

omit [Scalar α] in
theorem pure (value : β) : (Pure.pure value : Logged α β).IsNeutral := fun _ h => nomatch h

omit [Scalar α] in
theorem lift (x : Checked β) : (liftM x : Logged α β).IsNeutral := fun _ h => nomatch h

omit [Scalar α] in
theorem note {event : Event α} (h : event.isNeutral = true) : (Logged.note event).IsNeutral := by
  intro entry he
  rw [Logged.note, List.mem_singleton] at he
  rw [he]
  exact h

omit [Scalar α] in
theorem noteAll {events : List (Event α)} (h : ∀ event ∈ events, event.isNeutral = true) :
    (Logged.noteAll events).IsNeutral := by
  intro entry he
  obtain ⟨event, hmem, rfl⟩ := List.mem_map.mp he
  exact h event hmem

omit [Scalar α] in
theorem bind {x : Logged α β} {f : β → Logged α γ} (hx : x.IsNeutral)
    (hf : ∀ value, (f value).IsNeutral) : (x >>= f).IsNeutral := by
  intro entry he
  cases hr : x.result with
  | error e =>
    rw [events_bind_of_error hr] at he
    exact hx entry he
  | ok value =>
    rw [events_bind_of_ok hr] at he
    rcases List.mem_append.mp he with he | he
    · exact hx entry he
    · exact hf value entry he

omit [Scalar α] in
theorem filterM {test : β → Logged α Bool} (h : ∀ item, (test item).IsNeutral) (items : List β) :
    (items.filterM test).IsNeutral := by
  have haux : ∀ acc : List β, (List.filterAuxM test items acc).IsNeutral := by
    induction items with
    | nil => exact fun acc => .pure acc
    | cons item rest ih =>
      intro acc
      rw [List.filterAuxM]
      exact .bind (h item) fun _ => ih _
  exact .bind (haux []) fun _ => .pure _

omit [Scalar α] in
theorem mapM {act : β → Logged α γ} (h : ∀ item, (act item).IsNeutral) (items : List β) :
    (items.mapM act).IsNeutral := by
  have hloop : ∀ done : List γ, (List.mapM.loop act items done).IsNeutral := by
    induction items with
    | nil => exact fun done => .pure done.reverse
    | cons item rest ih => exact fun done => .bind (h item) fun _ => ih _
  exact hloop []

end IsNeutral

end Logged

namespace SingleThreshold

open Logged

theorem distributeAll_isNeutral (planner : Planner α) (targets : List HostId) (upper : α)
    (sources : List HostId) : (distributeAll planner targets upper sources).IsNeutral := by
  induction sources generalizing planner with
  | nil => exact .pure _
  | cons source rest ih =>
    rw [distributeAll]
    refine .bind (.lift _) fun r => ?_
    obtain ⟨moved, between⟩ := r
    dsimp only
    split
    · exact .bind (.note rfl) fun _ => .bind (ih _) fun _ => .pure _
    · exact .bind (ih _) fun _ => .pure _

theorem consolidateAll_isNeutral (planner : Planner α) (targets : List HostId)
    (excluded : Std.TreeSet HostId) (upper : α) (sources : List HostId) :
    (consolidateAll planner targets excluded upper sources).IsNeutral := by
  induction sources generalizing planner excluded with
  | nil => exact .pure _
  | cons source rest ih =>
    rw [consolidateAll]
    split
    · exact ih _ _
    · refine .bind (.lift _) fun r => ?_
      obtain ⟨moved, between⟩ := r
      dsimp only
      split
      · exact .bind (.note rfl) fun _ => ih _ _
      · exact .bind (ih _ _) fun _ => .pure _

theorem plan_isNeutral (thresholds : Thresholds α) (pool : Pool α) (monitoring : Monitoring α)
    (id : Nat) : (plan thresholds pool monitoring id).IsNeutral := by
  have hclassified : ∀ classifications : List (Classification α),
      (noteAll (classifications.map .hostClassified)).IsNeutral := by
    intro classifications
    refine .noteAll fun event he => ?_
    obtain ⟨classification, -, rfl⟩ := List.mem_map.mp he
    rfl
  rw [plan]
  refine .bind (.lift _) fun classifications => .bind (hclassified classifications) fun _ => ?_
  extract_lets ids overloaded others planner consolidate
  have hconsolidate : ∀ r, (consolidate r).IsNeutral := by
    rintro ⟨distributed, planner⟩
    exact .bind (.filterM (fun _ => .lift _) _) fun _ =>
      .bind (.filterM (fun _ => .lift _) _) fun _ =>
        .bind (.lift _) fun _ => .bind (consolidateAll_isNeutral _ _ _ _ _) fun _ => .pure _
  split
  · exact .bind (.pure _) hconsolidate
  · exact .bind (.lift _) fun _ => .bind (.lift _) fun _ =>
      .bind (distributeAll_isNeutral _ _ _ _) hconsolidate

instance : KeepsLedger α (SingleThreshold α) where
  ledger policy := policy.ledger
  ledger_save _ _ _ := rfl
  restore_eq _ _ _ _ := rfl
  optimize_neutral policy pool monitoring id :=
    (plan_isNeutral policy.thresholds pool monitoring id).bind fun _ => .pure _

end SingleThreshold

instance : KeepsLedger α (Scripted α) where
  ledger policy := policy.ledger
  ledger_save _ _ _ := rfl
  restore_eq _ _ _ _ := rfl
  optimize_neutral policy pool monitoring id := by
    change (AllocationPolicy.optimize policy pool monitoring id).IsNeutral
    simp only [AllocationPolicy.optimize]
    split
    · exact .pure _
    · exact .bind (.mapM (fun _ => .lift _) _) fun _ => .pure _

/-! ### Commands -/

/-- An operation of a simulation, with its arguments. -/
inductive Command (α : Type) where
  | addHost (spec : HostSpec α)
  | submitVm (spec : VmSpec α)
  | placeVm (vm : VmId)
  | releaseVm (vm : VmId)
  | updateVmMips (vm : VmId) (mips : α)
  | applyPlan (plan : List (Migration α))
  | optimize
  | step

omit [Scalar α] in
/-- The command asks for an admitted rate only. -/
def Command.AsksFor (rates : α → Prop) : Command α → Prop
  | .submitVm spec => rates spec.mips
  | .updateVmMips _ mips => rates mips
  | _ => True

omit [Scalar α] in
theorem Command.asksFor_any (command : Command α) : command.AsksFor fun _ => True := by
  cases command with
  | _ => trivial

namespace Simulation

variable [AllocationPolicy α π]

/-- The simulation after a command. -/
def obey (sim : Simulation α π) : Command α → Logged α (Simulation α π)
  | .addHost spec => Prod.snd <$> sim.addHost spec
  | .submitVm spec => Prod.snd <$> sim.submitVm spec
  | .placeVm v => Prod.snd <$> sim.placeVm v
  | .releaseVm v => Prod.snd <$> sim.releaseVm v
  | .updateVmMips v mips => Prod.snd <$> sim.updateVmMips v mips
  | .applyPlan plan => Prod.snd <$> sim.applyPlan plan
  | .optimize => Prod.snd <$> sim.optimize
  | .step => sim.step

/-- The simulation after commands that are given one after the other. -/
def run (sim : Simulation α π) (commands : List (Command α)) : Logged α (Simulation α π) :=
  commands.foldlM obey sim

/-- Some commands lead to the simulation, starting without hosts and VMs. VMs ask for admitted
rates. -/
def Reachable (rates : α → Prop) (sim : Simulation α π) : Prop :=
  ∃ config policy id commands, (∀ command ∈ commands, command.AsksFor rates)
    ∧ ((create config policy id).run commands).result = .ok sim

theorem reachable_of_run {config : Config α} {policy : π} {id : Nat} {commands : List (Command α)}
    {sim : Simulation α π} (h : ((create config policy id).run commands).result = .ok sim) :
    sim.Reachable fun _ => True :=
  ⟨config, policy, id, commands, fun command _ => command.asksFor_any, h⟩

/-! ### Commands as moves -/

variable {rates : α → Prop} {β : Type}

namespace Traces

theorem snd {sim : Simulation α π} {x : Logged α (β × Simulation α π)}
    (h : Traces rates sim x Prod.snd) : Traces rates sim (Prod.snd <$> x) fun last => last := by
  have hbind : (Prod.snd <$> x : Logged α (Simulation α π)) = x >>= fun r => Pure.pure r.2 := rfl
  rw [hbind]
  exact h.bind fun _ _ => .pure rfl

end Traces

theorem traces_addHost (sim : Simulation α π) (spec : HostSpec α) :
    Traces rates sim (sim.addHost spec) Prod.snd := by
  rw [addHost]
  exact .check fun ⟨id, pool⟩ h => .record (.addHost h) (.pure rfl)

theorem traces_placeVm (sim : Simulation α π) (v : VmId) :
    Traces rates sim (sim.placeVm v) Prod.snd := by
  rw [placeVm]
  refine .check fun placed h => ?_
  cases placed with
  | ok r =>
    rw [Outcome.settled_eq_ok_iff] at h
    exact .record (.place h) (.after (.meter _) (.pure rfl))
  | error error => exact .note rfl (.pure rfl)

/-- A VM that is not placed has been refused, and nothing has changed. -/
theorem placeVm_eq_error {sim sim' : Simulation α π} {v : VmId} {error : PlacementError}
    (h : (sim.placeVm v).result = .ok (.error error, sim')) :
    AllocationPolicy.place sim.policy sim.pool v = .refused error ∧ sim' = sim := by
  simp only [placeVm, Logged.result_bind, Logged.result_lift, Checked.bind_eq_ok_iff] at h
  obtain ⟨placed, hplaced, h⟩ := h
  cases placed with
  | ok r =>
    simp only [Logged.result_bind, Checked.bind_eq_ok_iff, Logged.result_pure, Except.ok.injEq,
      Prod.mk.injEq, reduceCtorEq, false_and, and_false, exists_false] at h
  | error reason =>
    simp only [Logged.result_bind, Checked.bind_eq_ok_iff, Logged.result_pure, Except.ok.injEq,
      Prod.mk.injEq, Except.error.injEq] at h
    obtain ⟨_, -, rfl, rfl⟩ := h
    exact ⟨(Outcome.settled_eq_error_iff _ _).mp hplaced, rfl⟩

theorem traces_submitVm (sim : Simulation α π) {spec : VmSpec α} (hr : rates spec.mips) :
    Traces rates sim (sim.submitVm spec) Prod.snd := by
  rw [submitVm]
  refine .check fun ⟨v, pool⟩ h => .after (.addVm hr h) ?_
  refine (traces_placeVm _ v).bind fun ⟨placed, sim'⟩ hplaced => ?_
  cases placed with
  | ok host => exact .pure rfl
  | error error =>
    obtain ⟨hrefused, rfl⟩ := placeVm_eq_error hplaced
    exact .after (.wait hrefused) (.pure rfl)

theorem traces_retry (sim : Simulation α π) (v : VmId) :
    Traces rates sim (sim.retry v) fun last => last := by
  rw [retry]
  split
  · exact .pure rfl
  · refine (traces_placeVm sim v).bind fun r hplaced => ?_
    obtain ⟨placed, sim'⟩ := r
    cases placed with
    | ok host => exact .pure rfl
    | error error =>
      obtain ⟨hrefused, rfl⟩ := placeVm_eq_error hplaced
      exact .after (.wait hrefused) (.pure rfl)

theorem traces_retryPending (sim : Simulation α π) :
    Traces rates sim sim.retryPending fun last => last := by
  rw [retryPending]
  exact .after (.emptyQueue sim) (.fold traces_retry _ _)

theorem traces_releaseVm (sim : Simulation α π) (v : VmId) :
    Traces rates sim (sim.releaseVm v) Prod.snd := by
  rw [releaseVm]
  refine .after (.leaveQueue sim v) ?_
  cases hr : sim.pool.release v with
  | none => exact .pure rfl
  | some r => exact .record (.release hr) (.after (.meter _) (.pure rfl))

theorem traces_updateVmMips (sim : Simulation α π) (v : VmId) {mips : α} (hr : rates mips) :
    Traces rates sim (sim.updateVmMips v mips) Prod.snd := by
  rw [updateVmMips]
  refine .check fun resized h => ?_
  cases resized with
  | ok pool =>
    rw [Outcome.settled_eq_ok_iff] at h
    exact .record (.resize hr h) (.after (.meter _) (.pure rfl))
  | error reason => exact .pure rfl

/-! ### Plans -/

theorem migrationDuration_eq_of_toVmSpec_eq {vm vm' : Vm α} (h : vm.toVmSpec = vm'.toVmSpec)
    (overhead : α) : vm.migrationDuration overhead = vm'.migrationDuration overhead := by
  rw [Vm.migrationDuration, Vm.migrationDuration, h]

/-- Launching the migrations of a plan after all of them were started in the pool is the same as
starting one after the other. -/
theorem traces_launch {plan : List (Migration α)} {pool : Pool α} {sim : Simulation α π}
    (h : sim.pool.startPlan plan = .ok (pool, none)) :
    Traces rates sim (Logged.fold launch { sim with pool } plan) fun last => last := by
  rw [Logged.fold_eq_foldlM]
  induction plan generalizing sim with
  | nil =>
    rw [Pool.startPlan, Except.ok.injEq, Prod.mk.injEq] at h
    obtain ⟨rfl, -⟩ := h
    exact .pure rfl
  | cons m rest ih =>
    rcases Pool.startPlan_cons_eq_ok h with ⟨between, hstart, hrest⟩ | ⟨reason, -, -, hnone⟩
    · obtain ⟨vm, s, target, target', hv, -⟩ := (Pool.startMigration_eq_done_iff _ _ _ _).mp hstart
      -- The record is read after all starts, when the VM asks for the same as before.
      have hsame := ((Pool.startMigration_steps hstart).trans
        (Pool.startPlan_steps hrest)).sameVms
      obtain ⟨vm', hv', -, hspec⟩ := hsame.symm.get? hv
      have hduration := migrationDuration_eq_of_toVmSpec_eq hspec sim.config.migrationOverhead
      have hrecord : pool.vm m.vm = .ok vm' := (Pool.vm_eq_ok_iff _ _ _).mpr hv'
      have hfirst : Traces rates sim (launch { sim with pool } m)
          fun last => { last with pool := between } := by
        simp only [launch, hrecord]
        refine .check fun record h => ?_
        cases h
        rw [hduration]
        exact .record (.start hv hstart) (.pure rfl)
      rw [List.foldlM_cons]
      refine hfirst.bind fun last hlast => ?_
      simp only [launch, hrecord, Logged.result_bind, Logged.result_lift, Checked.ok_bind] at hlast
      cases hlast
      exact ih hrest
    · cases hnone

variable [KeepsLedger α π]

theorem traces_restore {sim : Simulation α π} {plan : List (Migration α)} {between : Pool α}
    {rejection : PlanRejection} (policy : π)
    (hstart : sim.pool.startPlan plan = .ok (between, some rejection)) :
    Traces rates sim
      (AllocationPolicy.restore (AllocationPolicy.save policy sim.pool sim.pool.vmIds) between
        (between.vmsAround (planHosts plan)) (planHosts plan).toList)
      fun pool => { sim with pool } := by
  rw [KeepsLedger.restore_eq, KeepsLedger.ledger_save, Ledger.restore]
  refine .check fun r hr => ?_
  cases hf : r.failure with
  | none =>
    have hrestored : r = ⟨r.pool, none⟩ := by rw [← hf]
    rw [hrestored] at hr
    exact .after (.undo hstart hr) (.pure rfl)
  | some failure =>
    refine ⟨sim, ?_, fun pool hpool => ?_⟩
    · exact .notes sim fun entry he => List.mem_singleton.mp he ▸ rfl
    · cases hpool

theorem traces_applyPlan (sim : Simulation α π) (plan : List (Migration α)) :
    Traces rates sim (sim.applyPlan plan) Prod.snd := by
  rw [applyPlan]
  split
  · exact .pure rfl
  · refine .after (.decide sim (AllocationPolicy.save sim.policy sim.pool sim.pool.vmIds))
      (.check fun r hstart => ?_)
    obtain ⟨between, rejection?⟩ := r
    cases rejection? with
    | some rejection =>
      refine .note rfl ((traces_restore sim.policy hstart).bind fun pool hpool => ?_)
      exact .pure rfl
    | none => exact (traces_launch hstart).bind fun last _ => .after (.meter last) (.pure rfl)

/-! ### Passes -/

theorem traces_migrate (sim : Simulation α π) : Traces rates sim sim.migrate Prod.snd := by
  rw [migrate]
  have hpass : Traces rates sim
      (AllocationPolicy.optimize sim.policy sim.pool sim.monitoring sim.id) fun _ => sim :=
    ⟨sim, .notes sim (KeepsLedger.optimize_neutral _ _ _ _), fun _ _ => rfl⟩
  refine hpass.bind fun ⟨plan, policy⟩ _ => .note rfl (.after (.decide sim policy) ?_)
  exact (traces_applyPlan _ plan).bind fun _ _ => .pure rfl

theorem traces_optimize (sim : Simulation α π) : Traces rates sim sim.optimize Prod.snd := by
  have hnone : Traces rates sim (Pure.pure (0, sim) : Logged α (Nat × Simulation α π)) Prod.snd :=
    .pure rfl
  rw [optimize]
  split
  · refine (traces_migrate sim).bind fun ⟨started, last⟩ _ => ?_
    exact .check fun monitoring _ => .after (.sample last monitoring) (.pure rfl)
  · refine hnone.bind fun ⟨started, last⟩ _ => ?_
    exact .check fun monitoring _ => .after (.sample last monitoring) (.pure rfl)

/-! ### Steps -/

omit [KeepsLedger α π] in
/-- Ending a migration does not look at those that are still in flight. -/
theorem traces_complete {sim : Simulation α π} {flight : InFlight α}
    {rest later : List (InFlight α)} (hq : sim.inFlight = flight :: rest) :
    Traces rates sim (complete (sim.atFinish flight later) flight)
      fun last => { last with inFlight := rest } := by
  rw [complete]
  split
  · rename_i ht
    have hlapse : Move rates sim _ (sim.atFinish flight rest) := .lapse hq ht
    exact .record hlapse (.pure rfl)
  · rename_i ht
    rw [not_not] at ht
    refine .check fun landed h => ?_
    cases landed with
    | ok r =>
      rw [Outcome.settled_eq_ok_iff] at h
      have harrive : Move rates sim _
          { sim.atFinish flight rest with pool := r.2, completed := sim.completed + 1 } :=
        .arrive hq ht h
      exact .record harrive (.pure rfl)
    | error reason =>
      rw [Outcome.settled_eq_error_iff] at h
      have hfail : Move rates sim _ (sim.atFinish flight rest) := .fail hq ht h
      exact .record hfail (.pure rfl)

omit [KeepsLedger α π] in
theorem traces_land {sim : Simulation α π} {flight : InFlight α} {rest later : List (InFlight α)}
    (hq : sim.inFlight = flight :: rest) :
    Traces rates sim (land { sim with inFlight := later } flight)
      fun last => { last with inFlight := rest } := by
  rw [land]
  exact (traces_complete hq).bind fun last _ => .after (.meter _) (.pure rfl)

omit [AllocationPolicy α π] [KeepsLedger α π] in
theorem inFlight_of_complete {sim last : Simulation α π} {flight : InFlight α}
    (h : (sim.complete flight).result = .ok last) : last.inFlight = sim.inFlight := by
  rw [complete] at h
  split at h
  · cases h
    rfl
  · simp only [Logged.result_bind, Logged.result_lift, Checked.bind_eq_ok_iff] at h
    obtain ⟨landed, -, h⟩ := h
    cases landed with
    | ok r =>
      cases h
      rfl
    | error reason =>
      cases h
      rfl

omit [AllocationPolicy α π] [KeepsLedger α π] in
theorem inFlight_of_land {sim last : Simulation α π} {flight : InFlight α}
    (h : (sim.land flight).result = .ok last) : last.inFlight = sim.inFlight := by
  simp only [land, Logged.result_bind, Logged.result_pure, Checked.bind_eq_ok_iff,
    Except.ok.injEq] at h
  obtain ⟨between, hbetween, rfl⟩ := h
  have hsame := inFlight_of_complete hbetween
  exact hsame

omit [KeepsLedger α π] in
/-- Landing all migrations that are due, after they were taken out of the queue together, is the
same as landing one after the other. -/
theorem traces_landAll {due later : List (InFlight α)} {sim : Simulation α π}
    (hq : sim.inFlight = due ++ later) :
    Traces rates sim (Logged.fold land { sim with inFlight := later } due) fun last => last := by
  rw [Logged.fold_eq_foldlM]
  induction due generalizing sim with
  | nil =>
    rw [List.nil_append] at hq
    rw [← hq]
    exact .pure rfl
  | cons flight due ih =>
    rw [List.foldlM_cons]
    refine (traces_land hq).bind fun last hlast => ?_
    have hlater : last.inFlight = later := inFlight_of_land hlast
    have hnext : ({ last with inFlight := due ++ later } : Simulation α π).inFlight
        = due ++ later := rfl
    have hrest := ih hnext
    subst hlater
    exact hrest

omit [KeepsLedger α π] in
theorem traces_landUntil (sim : Simulation α π) (time : α) :
    Traces rates sim (sim.landUntil time) fun last => last :=
  traces_landAll List.takeWhile_append_dropWhile.symm

theorem traces_step (sim : Simulation α π) : Traces rates sim sim.step fun last => last := by
  rw [step]
  refine (traces_landUntil sim _).bind fun landed _ =>
    .after (.tick landed (sim.time + sim.config.stepInterval)) (.note rfl ?_)
  refine (traces_retryPending _).bind fun retried _ => ?_
  have hmeter : ∀ last : Simulation α π,
      Traces rates last (Pure.pure last.meterPower : Logged α (Simulation α π))
        fun last => last := fun last => .after (.meter last) (.pure rfl)
  dsimp only
  split
  · exact (traces_optimize retried).snd.bind fun last _ => hmeter last
  · have hidle : Traces rates retried (Pure.pure retried) fun last => last := .pure rfl
    exact hidle.bind fun last _ => hmeter last

/-! ### Runs -/

theorem traces_obey (sim : Simulation α π) {command : Command α} (hr : command.AsksFor rates) :
    Traces rates sim (sim.obey command) fun last => last := by
  cases command with
  | addHost spec => exact (traces_addHost sim spec).snd
  | submitVm spec => exact (traces_submitVm sim hr).snd
  | placeVm v => exact (traces_placeVm sim v).snd
  | releaseVm v => exact (traces_releaseVm sim v).snd
  | updateVmMips v mips => exact (traces_updateVmMips sim v hr).snd
  | applyPlan plan => exact (traces_applyPlan sim plan).snd
  | optimize => exact (traces_optimize sim).snd
  | step => exact traces_step sim

theorem traces_run (sim : Simulation α π) {commands : List (Command α)}
    (hr : ∀ command ∈ commands, command.AsksFor rates) :
    Traces rates sim (sim.run commands) fun last => last := by
  rw [run]
  induction commands generalizing sim with
  | nil => exact .pure rfl
  | cons command rest ih =>
    rw [List.foldlM_cons]
    exact (traces_obey sim (hr command List.mem_cons_self)).bind fun next _ =>
      ih next fun later hl => hr later (List.mem_cons_of_mem _ hl)

omit [KeepsLedger α π] in
theorem run_cons_eq_ok_iff (sim last : Simulation α π) (command : Command α)
    (rest : List (Command α)) :
    (sim.run (command :: rest)).result = .ok last
      ↔ ∃ next, (sim.obey command).result = .ok next ∧ (next.run rest).result = .ok last := by
  rw [run, List.foldlM_cons, Logged.result_bind, Checked.bind_eq_ok_iff]
  rfl

omit [KeepsLedger α π] in
/-- What holds at first, and is kept by each command of the run, holds after it. -/
theorem run_invariant {P : Simulation α π → Prop} {start last : Simulation α π}
    {commands : List (Command α)} (hstart : P start)
    (keeps : ∀ before command after sim next, commands = before ++ command :: after →
      (start.run before).result = .ok sim → P sim → (sim.obey command).result = .ok next → P next)
    (h : (start.run commands).result = .ok last) : P last := by
  induction commands generalizing start with
  | nil => exact Except.ok.inj h ▸ hstart
  | cons command rest ih =>
    obtain ⟨next, hnext, hrest⟩ := (run_cons_eq_ok_iff _ _ _ _).mp h
    refine ih (keeps [] command rest start next rfl rfl hstart hnext) ?_ hrest
    intro before later after sim sim' hsplit hbefore
    have hrun := (run_cons_eq_ok_iff start sim command before).mpr ⟨next, hnext, hbefore⟩
    exact keeps (command :: before) later after sim sim' (congrArg (command :: ·) hsplit) hrun

theorem Reachable.pool_steps {sim : Simulation α π} (h : sim.Reachable rates) :
    Pool.Steps (Pool.Op.AsksFor rates) Pool.empty sim.pool := by
  obtain ⟨config, policy, id, commands, hr, hrun⟩ := h
  exact ((traces_run _ hr).moves hrun).pool_steps

theorem Reachable.pool_reachable {sim : Simulation α π} (h : sim.Reachable rates) :
    sim.pool.Reachable := h.pool_steps.reachable (.refl _)

end Simulation

end Datacenter
