import Mathlib.Data.List.TakeWhile
import Datacenter.Proofs.Charges
import Datacenter.Proofs.Consistency
import Datacenter.Proofs.Landings

/-!
# The clock of a run

A step lands migrations with a tolerance, and then sets the clock to its own end. So the clock goes
back if a migration finishes just after a step, within the tolerance, and its target takes back
energy for that time. Nothing else sets the clock back. A run in which no migration finishes there
has a clock that only goes on, and energies that only grow.

Main statements: `times_course`, `onward_course` and `clock_goes_back_at_most`.
-/

namespace Datacenter.Simulation

variable {K π : Type} [ExactScalar K] {sim between sim' last : Simulation K π} {slack : K}

/-! ### Two simulations of a run -/

/-- From the one simulation to the other the clock goes back by at most so much, and no host gets
back more than the energy that it draws in this time. -/
structure Onward (slack : K) (sim sim' : Simulation K π) : Prop where
  time : sim.time ≤ sim'.time + slack
  energy : ∀ g, sim.meter.hostEnergy g ≤ sim'.meter.hostEnergy g + slack * sim.meter.powerOf g

theorem Onward.trans (hab : Onward 0 sim between) (hbc : Onward 0 between sim') :
    Onward 0 sim sim' := by
  have htime := hab.time.trans (add_le_add_left hbc.time 0)
  refine ⟨by simpa using htime, fun g => ?_⟩
  have hfirst := hab.energy g
  have hsecond := hbc.energy g
  rw [zero_mul, add_zero] at hfirst hsecond ⊢
  exact hfirst.trans hsecond

/-- Where the clock goes back, the charge is negative, by at most the power for that time. -/
theorem Charged.onward (h : Charged sim sim') (hnonneg : sim.PowerNonneg)
    (htime : sim.time ≤ sim'.time + slack) : Onward slack sim sim' := by
  refine ⟨htime, fun g => ?_⟩
  have hpassed : 0 ≤ sim'.time - sim.time + slack := by linarith
  have hcharge := mul_nonneg hpassed (hnonneg.powerOf g)
  rw [h g]
  linarith

/-! ### Steps -/

/-- No migration in flight finishes later than the next step, but within the tolerance. -/
def Punctual (sim : Simulation K π) : Prop :=
  ∀ f ∈ sim.inFlight, f.finish ≤ sim.stepEnd ∨ sim.stepEnd + Scalar.epsilon < f.finish

theorem finish_le_of_due {f : InFlight K} (h : f ∈ sim.dueUntil sim.stepEnd) :
    f.finish ≤ sim.stepEnd + Scalar.epsilon := by
  have hdue := List.mem_takeWhile_imp h
  simpa using hdue

theorem Punctual.finish_le (hp : sim.Punctual) {f : InFlight K}
    (h : f ∈ sim.dueUntil sim.stepEnd) : f.finish ≤ sim.stepEnd := by
  rcases hp f ((List.takeWhile_sublist _).mem h) with hle | hlate
  · exact hle
  · exact absurd (finish_le_of_due h) (not_le_of_gt hlate)

variable [AllocationPolicy K π] [KeepsLedger K π]

/-- Within a step, the clock goes on to each migration. It goes back at the end, if the last one
finishes later. -/
theorem times_step (hslack : 0 ≤ slack) (hinterval : 0 ≤ sim.config.stepInterval)
    (hdue : ∀ f ∈ sim.dueUntil sim.stepEnd, f.finish ≤ sim.stepEnd + slack)
    (h : sim.step.result = .ok sim') :
    (sim :: (sim.landings ++ [sim'])).IsChain fun s t => s.time ≤ t.time + slack := by
  obtain ⟨landed, last, hlanded, hend, rfl⟩ := step_ends h
  have hstart : sim.time ≤ sim.stepEnd + slack := by
    rw [stepEnd]
    linarith
  refine isChain_landings (P := fun s => s.time ≤ sim.stepEnd + slack) hstart (fun _ hr => hr) ?_
    hlanded ?_
  · intro between flight after hmem hbefore hone
    obtain ⟨middle, htime, -, -, rfl⟩ := land_ends hone
    rw [Scalar.larger_eq_max] at htime
    -- The maximum keeps the clock from going back, as nothing does at the end of the step.
    have hlater : between.time ≤ middle.time := htime ▸ le_max_right _ _
    rw [time_meterPower, htime]
    exact ⟨max_le (hdue flight hmem) hbefore, by rw [← htime]; linarith⟩
  · intro hbefore
    rw [time_meterPower, hend.time]
    exact hbefore

/-- All commands but steps leave the clock as it is. -/
theorem times_obey (hslack : 0 ≤ slack) (hinterval : 0 ≤ sim.config.stepInterval)
    {command : Command K}
    (hdue : command = .step → ∀ f ∈ sim.dueUntil sim.stepEnd, f.finish ≤ sim.stepEnd + slack)
    (h : (sim.obey command).result = .ok sim') :
    (sim :: (sim.stages command ++ [sim'])).IsChain fun s t => s.time ≤ t.time + slack := by
  rcases obey_effect h with ⟨rfl, hstep⟩ | ⟨hstages, hquick⟩
  · exact times_step hslack hinterval (hdue rfl) hstep
  · have hsame : sim'.time = sim.time := by
      rcases hquick with ⟨spec, id, -, hadd⟩ | hi
      · obtain ⟨pool, -, rfl⟩ := addHost_cases hadd
        rfl
      · exact hi.time
    rw [hstages]
    refine .cons_cons ?_ (.singleton _)
    rw [hsame]
    exact le_add_of_nonneg_right hslack

/-! ### Runs -/

theorem times_course (hslack : 0 ≤ slack) (hinterval : 0 ≤ sim.config.stepInterval)
    {commands : List (Command K)}
    (hdue : ∀ before after between, commands = before ++ .step :: after →
      (sim.run before).result = .ok between →
      ∀ f ∈ between.dueUntil between.stepEnd, f.finish ≤ between.stepEnd + slack)
    (h : (sim.run commands).result = .ok last) :
    (sim :: sim.course commands).IsChain fun s t => s.time ≤ t.time + slack := by
  refine isChain_course ?_ h
  intro before command after between next hcommands hbefore hnext
  have hmoves := (traces_run sim fun c (_ : c ∈ before) => c.asksFor_any).moves hbefore
  have hconfig : between.config = sim.config := hmoves.config_eq
  refine times_obey hslack (hconfig ▸ hinterval) (fun hstep => ?_) hnext
  exact hdue before after between (hstep ▸ hcommands) hbefore

theorem powerNonneg_course (h : sim.PowerNonneg) {commands : List (Command K)}
    (hdraw : ∀ spec, .addHost spec ∈ commands → ∀ u, 0 ≤ spec.powerModel.draw u) :
    ∀ s ∈ sim :: sim.course commands, s.PowerNonneg := by
  refine forall_course h ?_
  intro before command after between next hcommands _ hbetween hnext
  refine hbetween.obey (fun spec hadd => hdraw spec ?_) hnext
  rw [hcommands, ← hadd]
  exact List.mem_append_right _ List.mem_cons_self

omit [ExactScalar K] [AllocationPolicy K π] [KeepsLedger K π] in
theorem isChain_and {R S : Simulation K π → Simulation K π → Prop} {sims : List (Simulation K π)}
    (hr : sims.IsChain R) (hs : sims.IsChain S) : sims.IsChain fun s t => R s t ∧ S s t := by
  rw [List.isChain_iff_getElem] at hr hs ⊢
  exact fun i hi => ⟨hr i hi, hs i hi⟩

theorem onward_course (hslack : 0 ≤ slack) (hinterval : 0 ≤ sim.config.stepInterval)
    (hsettled : sim.Settled) (hnonneg : sim.PowerNonneg) {commands : List (Command K)}
    (hdraw : ∀ spec, .addHost spec ∈ commands → ∀ u, 0 ≤ spec.powerModel.draw u)
    (hdue : ∀ before after between, commands = before ++ .step :: after →
      (sim.run before).result = .ok between →
      ∀ f ∈ between.dueUntil between.stepEnd, f.finish ≤ between.stepEnd + slack)
    (h : (sim.run commands).result = .ok last) :
    (sim :: sim.course commands).IsChain (Onward slack) := by
  obtain ⟨hcharged, -⟩ := charged_course hsettled h
  have htimes := times_course hslack hinterval hdue h
  have hall := powerNonneg_course hnonneg hdraw
  refine (isChain_and hcharged htimes).imp_of_mem_imp ?_
  intro s t hs _ ⟨hcharge, htime⟩
  exact hcharge.onward (hall s hs) htime

/-- From each simulation of a run to the next, the clock goes back by at most the tolerance, and a
host gets back at most the energy of that time. If no step is made just before the end of a
migration, the clock never goes back, and no energy is negative or decreases. -/
theorem clock_goes_back_at_most {config : Config K} {policy : π} {id : Nat}
    {commands : List (Command K)} (hinterval : 0 ≤ config.stepInterval)
    (hdraw : ∀ spec, .addHost spec ∈ commands → ∀ u, 0 ≤ spec.powerModel.draw u)
    (h : ((create config policy id).run commands).result = .ok sim) :
    (create config policy id :: (create config policy id).course commands).IsChain
      (Onward Scalar.epsilon)
    ∧ ((∀ before after between, commands = before ++ .step :: after →
        ((create config policy id).run before).result = .ok between → between.Punctual) →
      (create config policy id :: (create config policy id).course commands).Pairwise
        (fun s t => s.time ≤ t.time ∧ ∀ g, s.meter.hostEnergy g ≤ t.meter.hostEnergy g)
      ∧ ∀ s ∈ (create config policy id).course commands, ∀ g, 0 ≤ s.meter.hostEnergy g) := by
  have hsettled : (create config policy id).Settled := fun _ => rfl
  have hnonneg : (create config policy id).PowerNonneg :=
    ⟨fun _ _ hg => (nomatch hg), fun _ _ hm => (nomatch hm)⟩
  refine ⟨?_, fun hpunctual => ?_⟩
  · refine onward_course Scalar.epsilon_nonneg hinterval hsettled hnonneg hdraw ?_ h
    exact fun _ _ _ _ _ f hf => finish_le_of_due hf
  · have hchain : (create config policy id :: (create config policy id).course commands).IsChain
        (Onward 0) := by
      refine onward_course le_rfl hinterval hsettled hnonneg hdraw ?_ h
      intro before after between hcommands hbefore f hf
      rw [add_zero]
      exact (hpunctual before after between hcommands hbefore).finish_le hf
    -- Without slack, what holds from each simulation to the next holds of any two.
    have : Trans (Onward (π := π) (0 : K)) (Onward 0) (Onward 0) := ⟨Onward.trans⟩
    have hpairs : (create config policy id :: (create config policy id).course commands).Pairwise
        fun s t => s.time ≤ t.time ∧ ∀ g, s.meter.hostEnergy g ≤ t.meter.hostEnergy g := by
      refine hchain.pairwise.imp fun {s t} hst => ⟨by simpa using hst.time, fun g => ?_⟩
      simpa using hst.energy g
    refine ⟨hpairs, fun s hs g => ?_⟩
    have hzero : (create config policy id).meter.hostEnergy g = 0 := rfl
    rw [← hzero]
    exact ((List.pairwise_cons.mp hpairs).1 s hs).2 g

/-- A VM is on its way from the one host to the other when a step is made. -/
def movedRun (α : Type) [Scalar α] : List (Command α) :=
  let host : HostSpec α := ⟨"host", 4, 1000.0, 8192, 1000, 100000, .linear 200.0 0.0⟩
  [.addHost host, .addHost host, .submitVm ⟨"tenant", 1, 500.0, 1024, 0, 1000⟩,
    .applyPlan [⟨0, 0, 1, 7, .distribute, ⟨0, 0, 0⟩, ⟨0, 0, 0⟩, none⟩], .step]

/-- Each migration takes the given time. -/
def movedStart {α : Type} [Scalar α] (overhead : α) : Simulation α (SingleThreshold α) :=
  let thresholds : Thresholds α := ⟨0.8, 0.3⟩
  create ⟨"datacenter", "SingleThreshold", thresholds, 30.0, 30.0, 3, false, overhead, [], []⟩
    (.ofThresholds thresholds) 7

theorem draw_nonneg_of_mem_movedRun {spec : HostSpec ℚ} (h : .addHost spec ∈ movedRun ℚ) (u : ℚ) :
    0 ≤ spec.powerModel.draw u := by
  have hmodel : spec.powerModel = .linear 200.0 0.0 := by
    simp only [movedRun, List.mem_cons, Command.addHost.injEq, reduceCtorEq, or_false,
      List.not_mem_nil, or_self] at h
    rw [h]
  rw [hmodel, PowerModel.linear, PowerModel.ofCurve]
  norm_num
  exact Scalar.clampUnit_nonneg u

/-- A migration of eight seconds is over when the step ends. -/
theorem movedRun_goes_on : ∃ sim, ((movedStart (8 : ℚ)).run (movedRun ℚ)).result = .ok sim
    ∧ ((movedStart (8 : ℚ)).course (movedRun ℚ)).map (·.time) = [0, 0, 0, 0, 8, 30]
    ∧ (∀ s ∈ (movedStart (8 : ℚ)).course (movedRun ℚ), ∀ g, 0 ≤ s.meter.hostEnergy g) := by
  have hrun : (((movedStart (8 : ℚ)).run (movedRun ℚ)).result.toOption.any fun sim =>
      ((movedStart (8 : ℚ)).course (movedRun ℚ)).map (·.time) == [0, 0, 0, 0, 8, 30]) = true := by
    decide +kernel
  have hearlier : (((movedStart (8 : ℚ)).run (movedRun ℚ).dropLast).result.toOption.any fun sim =>
      sim.inFlight.all fun f => decide (f.finish ≤ sim.stepEnd)) = true := by
    decide +kernel
  obtain ⟨sim, hsim, htest⟩ := Checked.eq_ok_of_any hrun
  obtain ⟨middle, hmiddle, hall⟩ := Checked.eq_ok_of_any hearlier
  have hinterval : 0 ≤ (movedStart (8 : ℚ)).config.stepInterval := by decide +kernel
  obtain ⟨-, hgoes⟩ := clock_goes_back_at_most hinterval
    (fun _ hspec => draw_nonneg_of_mem_movedRun hspec) hsim
  refine ⟨sim, hsim, by simpa using htest, (hgoes ?_).2⟩
  intro before after between hcommands hbefore f hf
  have hsplit : (movedRun ℚ).dropLast ++ .step :: [] = before ++ .step :: after := hcommands
  have hone : Command.step ∉ (movedRun ℚ).dropLast := by simp [movedRun]
  rw [List.append_cons_inj_of_notMem hone List.not_mem_nil] at hsplit
  rw [← hsplit.1] at hbefore
  cases hmiddle.symm.trans hbefore
  exact .inl (by simpa using List.all_eq_true.mp hall f hf)

/-- One that finishes half of the tolerance later sets the clock back, and its target has less than
no energy. -/
theorem movedRun_goes_back : 0 < (movedStart (30.0000000005 : ℚ)).config.stepInterval
    ∧ 0 ≤ (movedStart (30.0000000005 : ℚ)).config.migrationOverhead
    ∧ (∀ spec, .addHost spec ∈ movedRun ℚ → ∀ u, 0 ≤ spec.powerModel.draw u)
    ∧ (∃ sim, ((movedStart (30.0000000005 : ℚ)).run (movedRun ℚ)).result = .ok sim
      ∧ ((movedStart (30.0000000005 : ℚ)).course (movedRun ℚ)).map (·.time)
        = [0, 0, 0, 0, 30.0000000005, 30]
      ∧ sim.meter.hostEnergy 1 < 0)
    ∧ ∃ sim, ((movedStart (30.0000000005 : Float)).run (movedRun Float)).result = .ok sim
      ∧ sim.meter.hostEnergy 1 < 0 := by
  have hrun : (((movedStart (30.0000000005 : ℚ)).run (movedRun ℚ)).result.toOption.any fun sim =>
      ((movedStart (30.0000000005 : ℚ)).course (movedRun ℚ)).map (·.time)
          == [0, 0, 0, 0, 30.0000000005, 30]
        && decide (sim.meter.hostEnergy 1 < 0)) = true := by
    decide +kernel
  have hfloat : (((movedStart (30.0000000005 : Float)).run (movedRun Float)).result.toOption.any
      fun sim => decide (sim.meter.hostEnergy 1 < 0)) = true := by
    decide +kernel
  obtain ⟨sim, hsim, htest⟩ := Checked.eq_ok_of_any hrun
  simp only [Bool.and_eq_true, beq_iff_eq, decide_eq_true_eq] at htest
  obtain ⟨sim', hsim', htest'⟩ := Checked.eq_ok_of_any hfloat
  exact ⟨by decide +kernel, by decide +kernel, fun _ hspec => draw_nonneg_of_mem_movedRun hspec,
    ⟨sim, hsim, htest⟩, sim', hsim', of_decide_eq_true htest'⟩

end Datacenter.Simulation
