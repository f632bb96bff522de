import Datacenter.Config.Reader
import Datacenter.Policy.SingleThreshold
import Datacenter.Proofs.FloatSums
import Datacenter.Proofs.Launches
import Datacenter.Simulation.Start

/-!
# Checked configurations

A configuration that passes its checks, wherever it was read, has sensible numbers, as far as they
are numbers: the overhead of migrations and the rates of VMs are compared with zero in a way that
lets values pass which are no numbers. So time goes on from zero, and a migration ends no earlier
than it starts, unless the overhead is no number; then its end is none either, and is not before its
start.

Main statements: `Config.sound_of_violation?`, `BuiltFrom.launches` and `checked_config_launches`.
-/

namespace Datacenter

/-! ### Numbers of a configuration -/

/-- The amount is at least zero, or no number. -/
def NoLess (x : Float) : Prop := 0 ≤ x ∨ x.isNaN = true

theorem noLess_of_not_lt {x : Float} (h : ¬x < 0) : NoLess x := by
  by_cases hnan : x.isNaN = true
  · exact .inr hnan
  · have hnumber : x ≤ x := (float_le_self_iff x).mpr (Bool.eq_false_iff.mpr hnan)
    have hzero : (0 : Float) ≤ 0 := by decide +kernel
    exact .inl ((float_not_lt_iff hnumber hzero).mp h)

structure HostGroup.Sound (group : HostGroup Float) : Prop where
  cores : 0 < group.cores
  mipsPerCore : 0 < group.mipsPerCore
  ram : 0 < group.ram

structure VmGroup.Sound (group : VmGroup Float) : Prop where
  cores : 0 < group.cores
  mips : NoLess group.mips

structure Config.Sound (config : Config Float) : Prop where
  lower : 0 < config.thresholds.lower
  ascending : config.thresholds.lower < config.thresholds.upper
  upper : config.thresholds.upper ≤ 1
  stepInterval : 0 < config.stepInterval
  monitoringInterval : 0 < config.monitoringInterval
  historyLength : 1 ≤ config.historyLength
  migrationOverhead : NoLess config.migrationOverhead
  hosts : ∀ group ∈ config.hosts, group.Sound
  vms : ∀ group ∈ config.vms, group.Sound

theorem HostGroup.sound_of_isValid {group : HostGroup Float} (h : group.isValid = true) :
    group.Sound := by
  simp only [isValid, Bool.and_eq_true, decide_eq_true_eq] at h
  obtain ⟨⟨hcores, hmips⟩, hram⟩ := h
  exact ⟨Nat.pos_of_ne_zero hcores, hmips, UInt64.pos_iff_ne_zero.mpr hram⟩

theorem VmGroup.sound_of_isValid {group : VmGroup Float} (h : group.isValid = true) :
    group.Sound := by
  simp only [isValid, Bool.and_eq_true, decide_eq_true_eq, Bool.not_eq_true',
    decide_eq_false_iff_not] at h
  exact ⟨Nat.pos_of_ne_zero h.1, noLess_of_not_lt h.2⟩

theorem Config.sound_of_violation? {config : Config Float} (h : config.violation? = none) :
    config.Sound := by
  rw [violation?] at h
  split_ifs at h with hthresholds hintervals hlength hoverhead
  split at h
  · cases h
  · cases h
  · rename_i hhosts hvms
    simp only [List.find?_eq_none, Bool.not_eq_true', Bool.not_eq_false] at hhosts hvms
    simp only [Bool.not_eq_true', Bool.not_eq_false, Thresholds.valid, Bool.and_eq_true,
      decide_eq_true_eq] at hthresholds
    obtain ⟨⟨hlower, hascending⟩, hupper⟩ := hthresholds
    exact {
      lower := hlower
      ascending := hascending
      upper := hupper
      stepInterval := hintervals.1
      monitoringInterval := hintervals.2
      historyLength := Nat.pos_of_ne_zero hlength
      migrationOverhead := noLess_of_not_lt hoverhead
      hosts := fun group hgroup => HostGroup.sound_of_isValid (hhosts group hgroup)
      vms := fun group hgroup => VmGroup.sound_of_isValid (hvms group hgroup) }

theorem Config.violation?_of_ofText {text : String} {config : Config Float}
    (h : ofText text = .ok config) : config.violation? = none := by
  rw [ofText] at h
  split at h
  · cases h
  · split at h
    · rename_i hvalid
      cases h
      exact hvalid
    · cases h

/-! ### Durations of migrations -/

namespace Vm

theorem migrationDuration_nonneg (vm : Vm Float) {overhead : Float} (h : 0 ≤ overhead) :
    0 ≤ vm.migrationDuration overhead := by
  rw [migrationDuration]
  split_ifs with hbandwidth
  · exact h
  · have hpos : 0 < vm.bandwidth.toNat := by
      apply Nat.pos_of_ne_zero
      intro hzero
      exact hbandwidth (UInt64.toNat_inj.mp hzero)
    have htransfer := float_transfer_nonneg vm.ram.toNat_lt hpos vm.bandwidth.toNat_lt
    exact float_le_trans htransfer (float_le_add htransfer h)

theorem migrationDuration_isNaN (vm : Vm Float) {overhead : Float} (h : overhead.isNaN = true) :
    (vm.migrationDuration overhead).isNaN = true := by
  rw [migrationDuration]
  split_ifs with hbandwidth
  · exact h
  · exact float_isNaN_add h _

end Vm

namespace Simulation

/-! ### The configuration of a simulation -/

section

variable {α π : Type} [Scalar α] {sim sim' : Simulation α π}

theorem config_of_land {flight : InFlight α} (h : (sim.land flight).result = .ok sim') :
    sim'.config = sim.config := by
  rcases land_cases h with rfl | ⟨source, pool, -, rfl⟩
  · rfl
  · rfl

theorem config_of_landUntil {time : α} (h : (sim.landUntil time).result = .ok sim') :
    sim'.config = sim.config := by
  rw [landUntil_eq] at h
  refine Logged.fold_invariant (P := fun last => last.config = sim.config) rfl ?_ h
  intro state flight next _ hstate hnext
  rw [config_of_land hnext, hstate]

variable [AllocationPolicy α π]

theorem config_of_retryPending (h : sim.retryPending.result = .ok sim') :
    sim'.config = sim.config := by
  rw [retryPending] at h
  refine Logged.fold_invariant (P := fun last => last.config = sim.config) rfl ?_ h
  intro state v next _ hstate hnext
  rcases retry_cases hnext with ⟨-, rfl⟩ | ⟨-, rfl⟩ | ⟨host, pool, -, rfl⟩
  · exact hstate
  · exact hstate
  · exact hstate

theorem config_of_applyPlan {plan : List (Migration α)} {answer : Except PlanRejection Nat}
    (h : (sim.applyPlan plan).result = .ok (answer, sim')) : sim'.config = sim.config := by
  rcases applyPlan_parts h with ⟨-, -, rfl⟩ | ⟨pool, last, -, hlast, -, rfl⟩ |
    ⟨_, _, pool, -, -, -, rfl⟩
  · rfl
  · rw [fold_launch_eq hlast]
    rfl
  · rfl

theorem config_of_optimize {started : Nat} (h : sim.optimize.result = .ok (started, sim')) :
    sim'.config = sim.config := by
  obtain ⟨last, monitoring, rfl, rfl | ⟨-, plan, policy, answer, -, happly⟩⟩ := optimize_cases h
  · rfl
  · have hlast := config_of_applyPlan happly
    exact hlast

theorem config_of_step (h : sim.step.result = .ok sim') : sim'.config = sim.config := by
  obtain ⟨landed, retried, last, hlanded, hretried, hlast, rfl⟩ := step_cases h
  have hbefore := config_of_retryPending hretried
  have hlanded := config_of_landUntil hlanded
  rw [← hlanded]
  rcases hlast with rfl | ⟨started, hoptimize⟩
  · exact hbefore
  · exact (config_of_optimize hoptimize).trans hbefore

theorem config_of_obey {command : Command α} (h : (sim.obey command).result = .ok sim') :
    sim'.config = sim.config := by
  cases command with
  | addHost spec =>
    obtain ⟨id, hadd⟩ := Logged.exists_of_snd h
    obtain ⟨pool, -, rfl⟩ := addHost_cases hadd
    rfl
  | submitVm spec =>
    obtain ⟨v, hsubmit⟩ := Logged.exists_of_snd h
    obtain ⟨pool, -, rfl | ⟨host, pool', -, rfl⟩⟩ := submitVm_cases hsubmit
    · rfl
    · rfl
  | placeVm v =>
    obtain ⟨answer, hplace⟩ := Logged.exists_of_snd h
    rcases placeVm_cases hplace with ⟨host, pool, -, -, rfl⟩ | ⟨error, -, rfl⟩
    · rfl
    · rfl
  | releaseVm v =>
    obtain ⟨answer, hrelease⟩ := Logged.exists_of_snd h
    rcases releaseVm_cases hrelease with ⟨-, rfl⟩ | ⟨host, pool, -, rfl⟩
    · rfl
    · rfl
  | updateVmMips v mips =>
    obtain ⟨answer, hresize⟩ := Logged.exists_of_snd h
    rcases updateVmMips_cases hresize with rfl | ⟨pool, -, rfl⟩
    · rfl
    · rfl
  | applyPlan plan =>
    obtain ⟨answer, happly⟩ := Logged.exists_of_snd h
    exact config_of_applyPlan happly
  | optimize =>
    obtain ⟨started, hoptimize⟩ := Logged.exists_of_snd h
    exact config_of_optimize hoptimize
  | step => exact config_of_step h

end

/-! ### Simulations of a configuration -/

variable {π : Type} [AllocationPolicy Float π] {config : Config Float}
  {sim sim' : Simulation Float π}

/-- The simulation has just been created for the configuration, without any hosts and VMs or with
those that it lists. -/
def BuiltFrom (config : Config Float) (sim : Simulation Float π) : Prop :=
  (∃ policy id, sim = create config policy id)
  ∨ ∃ id models policies, (ofConfig config id models policies).result = .ok (.ok sim)

/-- The simulation runs under the configuration, and its time is a number from zero on. -/
structure Under (config : Config Float) (sim : Simulation Float π) : Prop where
  config : sim.config = config
  time : 0 ≤ sim.time

omit [AllocationPolicy Float π] in
theorem Under.create (config : Config Float) (policy : π) (id : Nat) :
    (create config policy id).Under config where
  config := rfl
  time := by
    show (0 : Float) ≤ 0
    decide +kernel

omit [AllocationPolicy Float π] in
theorem Under.addHostGroups {models : PowerModelRegistry Float} {groups : List (HostGroup Float)}
    (h : sim.Under config)
    (hadd : (sim.addHostGroups models groups).result = .ok (.ok sim')) : sim'.Under config := by
  induction groups generalizing sim with
  | nil =>
    cases hadd
    exact h
  | cons group rest ih =>
    rw [Simulation.addHostGroups] at hadd
    split_ifs at hadd
    · exact ih h hadd
    · split at hadd
      · cases hadd
      · simp only [Logged.result_bind, Checked.bind_eq_ok_iff] at hadd
        obtain ⟨next, hnext, hrest⟩ := hadd
        refine ih (Logged.fold_invariant (P := fun s => s.Under config) h ?_ hnext) hrest
        intro state index after _ hstate hafter
        obtain ⟨id, hone⟩ := Logged.exists_of_snd hafter
        obtain ⟨pool, -, rfl⟩ := addHost_cases hone
        exact ⟨hstate.config, hstate.time⟩

theorem Under.submitVmGroup {group : VmGroup Float} (h : sim.Under config)
    (hsubmit : (sim.submitVmGroup group).result = .ok sim') : sim'.Under config := by
  refine Logged.fold_invariant (P := fun s => s.Under config) h ?_ hsubmit
  intro state spec after _ hstate hafter
  obtain ⟨v, hone⟩ := Logged.exists_of_snd hafter
  obtain ⟨pool, -, rfl | ⟨host, pool', -, rfl⟩⟩ := submitVm_cases hone
  · exact ⟨hstate.config, hstate.time⟩
  · exact ⟨hstate.config, hstate.time⟩

theorem BuiltFrom.under (h : sim.BuiltFrom config) : sim.Under config := by
  rcases h with ⟨policy, id, rfl⟩ | ⟨id, models, policies, hstart⟩
  · exact .create config policy id
  · rw [ofConfig] at hstart
    split at hstart
    · cases hstart
    · rename_i policy hpolicy
      simp only [Logged.result_bind, Checked.bind_eq_ok_iff] at hstart
      obtain ⟨answer, hadd, hstart⟩ := hstart
      cases answer with
      | error e => cases hstart
      | ok hosted =>
        simp only [Logged.result_bind, Checked.bind_eq_ok_iff] at hstart
        obtain ⟨last, hsubmit, hstart⟩ := hstart
        cases hstart
        refine Logged.fold_invariant (P := fun s => s.Under config)
          ((Under.create config policy id).addHostGroups hadd) ?_ hsubmit
        intro state group next _ hstate hnext
        exact hstate.submitVmGroup hnext

/-! ### Launched migrations -/

/-- A migration that starts now and takes as long as its VM and the configuration say. Its end is
not before its start, and is a number if the overhead is one. -/
structure EndsInTime (config : Config Float) (sim : Simulation Float π) (f : InFlight Float) :
    Prop where
  finish : ∃ vm, sim.pool.vms.get? f.vm = some vm
    ∧ f.finish = sim.time + vm.migrationDuration config.migrationOverhead
  not_before : ¬f.finish < sim.time
  number : 0 ≤ config.migrationOverhead → sim.time ≤ f.finish

omit [AllocationPolicy Float π] in
theorem Launched.endsInTime {plan : List (Migration Float)} {added : List (InFlight Float)}
    (hsound : config.Sound) (h : sim.Under config) (hl : Launched sim plan added sim') :
    ∀ f ∈ added, sim'.EndsInTime config f := by
  intro f hf
  obtain ⟨vm, hvm, hfinish⟩ := hl.finish f hf
  rw [h.config, ← hl.time] at hfinish
  have htime : 0 ≤ sim'.time := hl.time ▸ h.time
  have hnumber : 0 ≤ config.migrationOverhead → sim'.time ≤ f.finish := by
    intro hoverhead
    rw [hfinish]
    exact float_le_add htime (vm.migrationDuration_nonneg hoverhead)
  refine ⟨⟨vm, hvm, hfinish⟩, ?_, hnumber⟩
  intro hbefore
  rcases hsound.migrationOverhead with hoverhead | hnan
  · exact OrderedScalar.lt_irrefl _ (OrderedScalar.lt_of_le_of_lt (hnumber hoverhead) hbefore)
  · have hend := float_isNaN_add (vm.migrationDuration_isNaN hnan) sim'.time
    rw [← hfinish] at hend
    exact float_not_lt_of_isNaN hend _ hbefore

/-- A command keeps the configuration and a time that is a number, and the migrations that it puts
in flight end in time. -/
theorem Under.obey {command : Command Float} (hsound : config.Sound) (h : sim.Under config)
    (hobey : (sim.obey command).result = .ok sim') :
    sim'.Under config ∧ ∃ kept added, kept.Sublist sim.inFlight
      ∧ sim'.inFlight.Perm (kept ++ added) ∧ sim'.started = sim.started + added.length
      ∧ ∀ f ∈ added, sim'.EndsInTime config f := by
  have hconfig := (config_of_obey hobey).trans h.config
  rcases obey_flights hobey with hsame | ⟨plan, added, hl⟩ | ⟨-, hstep⟩
  · refine ⟨⟨hconfig, hsame.time ▸ h.time⟩, sim.inFlight, [], .refl _, ?_, hsame.started, ?_⟩
    · rw [hsame.flights, List.append_nil]
    · exact List.forall_mem_nil _
  · refine ⟨⟨hconfig, hl.time ▸ h.time⟩, sim.inFlight, added, .refl _, hl.perm, ?_,
      hl.endsInTime hsound h⟩
    rw [hl.started, hl.length]
  · obtain ⟨landed, retried, hlanded, hretried, hsame, hlast⟩ := step_flights hstep
    obtain ⟨hflights, hstarted⟩ := landUntil_flights hlanded
    have hkept : (sim.withoutDue sim.stepEnd).inFlight.Sublist sim.inFlight :=
      List.dropWhile_sublist _
    have hend : 0 ≤ sim.stepEnd := by
      have hinterval : 0 ≤ sim.config.stepInterval := by
        rw [h.config]
        exact float_le_of_lt hsound.stepInterval
      exact float_le_trans h.time (float_le_add h.time hinterval)
    have hretried : retried.Under config := by
      have hconfig := config_of_retryPending hretried
      have hbefore := (config_of_landUntil hlanded).trans h.config
      refine ⟨hconfig.trans hbefore, ?_⟩
      rw [hsame.time]
      exact hend
    have hflights' : retried.inFlight = (sim.withoutDue sim.stepEnd).inFlight :=
      hsame.flights.trans hflights
    have hstarted' : retried.started = sim.started := hsame.started.trans hstarted
    rcases hlast with hquiet | ⟨-, added, -, plan, policy, -, hl⟩
    · refine ⟨⟨hconfig, hquiet.time ▸ hretried.time⟩, _, [], hkept, ?_, ?_, ?_⟩
      · rw [hquiet.flights, hflights', List.append_nil]
      · exact hquiet.started.trans hstarted'
      · exact List.forall_mem_nil _
    · refine ⟨⟨hconfig, hl.time ▸ hretried.time⟩, _, added, hkept, ?_, ?_,
        hl.endsInTime hsound hretried⟩
      · rw [← hflights']
        exact hl.perm
      · rw [hl.started, hl.length, hstarted']

/-- In each run that begins with a configuration without violations, wherever it was read,
migrations end no earlier than they start, and at times that are numbers if the overhead is one. -/
theorem BuiltFrom.launches {start : Simulation Float π} (hstart : start.BuiltFrom config)
    (hvalid : config.violation? = none) {commands : List (Command Float)}
    {command : Command Float} (hrun : (start.run commands).result = .ok sim)
    (hobey : (sim.obey command).result = .ok sim') :
    ∃ kept added, kept.Sublist sim.inFlight ∧ sim'.inFlight.Perm (kept ++ added)
      ∧ sim'.started = sim.started + added.length ∧ ∀ f ∈ added, sim'.EndsInTime config f := by
  have hsound := Config.sound_of_violation? hvalid
  have hunder : sim.Under config := by
    refine run_invariant (P := fun s => s.Under config) hstart.under ?_ hrun
    intro _ _ _ s next _ _ hs hnext
    exact (hs.obey hsound hnext).1
  exact (hunder.obey hsound hobey).2

/-- What is read without an error has sensible numbers, but for an overhead and rates that are no
numbers. In each run that begins with the configuration, migrations end no earlier than they start,
and at times that are numbers if the overhead is one. -/
theorem checked_config_launches {text : String} {config : Config Float}
    (h : Config.ofText text = .ok config) :
    config.Sound ∧ ∀ {π : Type} [AllocationPolicy Float π] (start : Simulation Float π),
      start.BuiltFrom config →
      ∀ (commands : List (Command Float)) (command : Command Float) (sim sim' : Simulation Float π),
        (start.run commands).result = .ok sim → (sim.obey command).result = .ok sim' →
        ∃ kept added, kept.Sublist sim.inFlight ∧ sim'.inFlight.Perm (kept ++ added)
          ∧ sim'.started = sim.started + added.length
          ∧ ∀ f ∈ added, sim'.EndsInTime config f := by
  have hvalid := Config.violation?_of_ofText h
  refine ⟨Config.sound_of_violation? hvalid, ?_⟩
  intro π _ start hstart commands command sim sim' hrun hobey
  exact hstart.launches hvalid hrun hobey

/-- Two hosts and a VM. -/
def movingText (overhead : String) : String :=
  "migration_overhead: " ++ overhead ++ "\nhosts:\n- cores: 4\n  mips_per_core: 1000\n  ram: 8192\n"
    ++ "  bandwidth: 1000\n  storage: 100000\n  max_power: 200\n  count: 2\n"
    ++ "vms:\n- mips: 1000\n  ram: 512\n  bandwidth: 10\n"

def movingPlan : List (Migration Float) := [⟨0, 0, 1, 7, .distribute, ⟨0, 0, 0⟩, ⟨0, 0, 0⟩, none⟩]

/-- What a test finds in the simulation after a step and the plan. -/
def afterPlan (test : Simulation Float (SingleThreshold Float) → Bool) (config : Config Float) :
    Bool :=
  (ofConfig config 7 .builtIn .builtIn).result.toOption.any fun answer =>
    answer.toOption.any fun start => (start.run [.step]).result.toOption.any fun sim =>
      sim.inFlight.isEmpty && (sim.obey (.applyPlan movingPlan)).result.toOption.any test

theorem exists_of_afterPlan {test : Simulation Float (SingleThreshold Float) → Bool}
    {config : Config Float} (h : afterPlan test config = true) : ∃ start sim sim',
    (ofConfig config 7 .builtIn .builtIn).result = .ok (.ok start)
      ∧ (start.run [.step]).result = .ok sim ∧ sim.inFlight = []
      ∧ (sim.obey (.applyPlan movingPlan)).result = .ok sim' ∧ test sim' = true := by
  obtain ⟨answer, hanswer, hstart⟩ := Checked.eq_ok_of_any h
  obtain ⟨start, rfl, hstep⟩ := Checked.eq_ok_of_any hstart
  obtain ⟨sim, hsim, hplan⟩ := Checked.eq_ok_of_any hstep
  rw [Bool.and_eq_true, List.isEmpty_iff] at hplan
  obtain ⟨sim', hsim', htest⟩ := Checked.eq_ok_of_any hplan.2
  exact ⟨start, sim, sim', hanswer, hsim, hplan.1, hsim', htest⟩

/-- The VM starts to move after a step. -/
theorem movingText_launches : ∃ config start sim sim' f,
    Config.ofText (movingText "5") = .ok config ∧ config.Sound
    ∧ (ofConfig config 7 .builtIn .builtIn).result = .ok (.ok start)
    ∧ (start.run [.step]).result = .ok sim
    ∧ (sim.obey (.applyPlan movingPlan)).result = .ok sim'
    ∧ sim'.inFlight = [f] ∧ 30 ≤ sim'.time ∧ sim'.time ≤ f.finish := by
  have hrun : ((Config.ofText (movingText "5")).toOption.any fun config =>
      decide (0 ≤ config.migrationOverhead)
        && afterPlan (fun next => decide (30 ≤ next.time) && next.inFlight.length == 1) config)
      = true := by
    decide +kernel
  obtain ⟨config, hconfig, htest⟩ := Checked.eq_ok_of_any hrun
  rw [Bool.and_eq_true, decide_eq_true_eq] at htest
  obtain ⟨hoverhead, hafter⟩ := htest
  obtain ⟨start, sim, sim', hanswer, hsim, hempty, hsim', htest⟩ := exists_of_afterPlan hafter
  rw [Bool.and_eq_true, decide_eq_true_eq, beq_iff_eq] at htest
  obtain ⟨f, hf⟩ := List.length_eq_one_iff.mp htest.2
  obtain ⟨hsound, hlaunches⟩ := checked_config_launches hconfig
  obtain ⟨kept, added, hkept, hperm, -, hadded⟩ :=
    hlaunches start (.inr ⟨7, .builtIn, .builtIn, hanswer⟩) [.step] _ sim sim' hsim hsim'
  rw [hempty, List.sublist_nil] at hkept
  rw [hkept, List.nil_append, hf] at hperm
  have hmem : f ∈ added := hperm.subset (by simp)
  exact ⟨config, start, sim, sim', f, hconfig, hsound, hanswer, hsim, hsim', hf, htest.1,
    (hadded f hmem).number hoverhead⟩

def numberlessText : String := "migration_overhead: .nan\nvms:\n- mips: .nan\n  ram: 512\n"

/-- An overhead and a rate that are no numbers are read without an error. A migration then ends at
no time that is not before its start. -/
theorem movingText_not_sensible :
    (∃ config, Config.ofText numberlessText = .ok config
      ∧ ¬0 ≤ config.migrationOverhead ∧ ∃ group ∈ config.vms, ¬0 ≤ group.mips)
    ∧ ∃ config, Config.ofText (movingText ".nan") = .ok config
      ∧ ∃ start sim sim', (ofConfig config 7 .builtIn .builtIn).result
          = .ok (.ok (start : Simulation Float (SingleThreshold Float)))
        ∧ (start.run [.step]).result = .ok sim
        ∧ (sim.obey (.applyPlan movingPlan)).result = .ok sim'
        ∧ ∃ f ∈ sim'.inFlight, ¬sim'.time ≤ f.finish := by
  have hread : ((Config.ofText numberlessText).toOption.any fun config =>
      !decide (0 ≤ config.migrationOverhead)
        && config.vms.any fun group => !decide (0 ≤ group.mips)) = true := by
    decide +kernel
  have hrun : ((Config.ofText (movingText ".nan")).toOption.any (afterPlan fun next =>
      next.inFlight.any fun f => !decide (next.time ≤ f.finish))) = true := by
    decide +kernel
  constructor
  · obtain ⟨config, hconfig, htest⟩ := Checked.eq_ok_of_any hread
    refine ⟨config, hconfig, ?_⟩
    simpa using htest
  · obtain ⟨config, hconfig, htest⟩ := Checked.eq_ok_of_any hrun
    obtain ⟨start, sim, sim', hanswer, hsim, -, hsim', htest⟩ := exists_of_afterPlan htest
    refine ⟨config, hconfig, start, sim, sim', hanswer, hsim, hsim', ?_⟩
    simpa using htest

end Simulation

end Datacenter
