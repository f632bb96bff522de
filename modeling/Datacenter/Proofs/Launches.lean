import Datacenter.Proofs.Course
import Datacenter.Proofs.Landings

/-!
# Launches

Migrations are put in flight when a plan is carried out, and by nothing else: one for each migration
of the plan, with the numbers that follow. A pass carries out a plan of its policy, and a step may
run a pass when all due migrations have landed.

Main statements: `applyPlan_flights`, `optimize_flights`, `step_flights` and `obey_flights`.
-/

namespace Datacenter

variable {α : Type} [Scalar α]

theorem InFlight.perm_enqueue (f : InFlight α) (queue : List (InFlight α)) :
    (f.enqueue queue).Perm (queue ++ [f]) := by
  obtain ⟨earlier, later, rfl, heq⟩ := f.enqueue_eq queue
  rw [heq, List.append_assoc]
  exact (List.perm_append_singleton f later).symm.append_left earlier

namespace Simulation

variable {π : Type} {sim between sim' : Simulation α π} {plan : List (Migration α)}
  {added : List (InFlight α)}

/-! ### Nothing is put in flight -/

/-- Nothing has been put in flight or come up, and no time has passed. -/
structure SameFlights (sim sim' : Simulation α π) : Prop where
  flights : sim'.inFlight = sim.inFlight
  started : sim'.started = sim.started
  time : sim'.time = sim.time

/-! ### A plan is put in flight -/

/-- The migrations of the plan have been put in flight one after the other, from now on, under the
numbers that follow. -/
structure Launched (sim : Simulation α π) (plan : List (Migration α)) (added : List (InFlight α))
    (sim' : Simulation α π) : Prop where
  moves : added.map (fun f => (f.vm, f.target)) = plan.map fun m => (m.vm, m.target)
  numbers : added.map (·.number) = List.range' (sim.started + 1) plan.length
  finish : ∀ f ∈ added, ∃ vm, sim'.pool.vms.get? f.vm = some vm
    ∧ f.finish = sim.time + vm.migrationDuration sim.config.migrationOverhead
  flights : sim'.inFlight = added.foldl (fun queue f => f.enqueue queue) sim.inFlight
  started : sim'.started = sim.started + plan.length
  time : sim'.time = sim.time

theorem Launched.perm (h : Launched sim plan added sim') :
    sim'.inFlight.Perm (sim.inFlight ++ added) := by
  have hfold : ∀ (added queue : List (InFlight α)),
      (added.foldl (fun queue f => f.enqueue queue) queue).Perm (queue ++ added) := by
    intro added
    induction added with
    | nil => simp
    | cons f rest ih =>
      intro queue
      rw [List.foldl_cons, List.append_cons queue f rest]
      exact (ih _).trans ((f.perm_enqueue queue).append_right rest)
  rw [h.flights]
  exact hfold added sim.inFlight

theorem Launched.length (h : Launched sim plan added sim') : added.length = plan.length := by
  simpa using congrArg List.length h.moves

/-- The migrations that are put in flight have larger numbers than those before. -/
theorem Launched.started_lt (h : Launched sim plan added sim') :
    ∀ f ∈ added, sim.started < f.number := by
  intro f hf
  have hmem := List.mem_map_of_mem (f := fun f : InFlight α => f.number) hf
  rw [h.numbers, List.mem_range'_1] at hmem
  exact hmem.1

theorem Launched.cons {m : Migration α} {f : InFlight α} {vm : Vm α}
    (hf : f = ⟨sim.time + vm.migrationDuration sim.config.migrationOverhead, sim.started + 1, m.vm,
      m.target⟩)
    (hvm : sim'.pool.vms.get? m.vm = some vm)
    (h : Launched { sim with inFlight := f.enqueue sim.inFlight, started := sim.started + 1 } plan
      added sim') : Launched sim (m :: plan) (f :: added) sim' where
  moves := by
    rw [List.map_cons, List.map_cons, h.moves, hf]
  numbers := by
    rw [List.map_cons, h.numbers, hf, List.length_cons, List.range'_succ]
  finish := by
    refine List.forall_mem_cons.mpr ⟨⟨vm, ?_, ?_⟩, h.finish⟩
    · rw [hf]
      exact hvm
    · rw [hf]
  flights := h.flights
  started := by
    have hstarted : sim'.started = sim.started + 1 + plan.length := h.started
    rw [hstarted, List.length_cons, Nat.add_right_comm, Nat.add_assoc]
  time := h.time

/-- What a launch tells of does not depend on what else is written around it. -/
theorem Launched.framed {first last : Simulation α π} (h : Launched sim plan added sim')
    (hfirst : first.SameFlights sim) (hconfig : sim.config = first.config)
    (hlast : sim'.SameFlights last) (hpool : last.pool = sim'.pool) :
    Launched first plan added last where
  moves := h.moves
  numbers := hfirst.started ▸ h.numbers
  finish := by
    rw [hpool, ← hfirst.time, ← hconfig]
    exact h.finish
  flights := hlast.flights.trans (hfirst.flights ▸ h.flights)
  started := hlast.started.trans (hfirst.started ▸ h.started)
  time := hlast.time.trans (h.time.trans hfirst.time)

theorem launched_fold (h : (Logged.fold launch sim plan).result = .ok sim') :
    ∃ added, Launched sim plan added sim' := by
  have hpool : sim'.pool = sim.pool := congrArg (·.pool) (fold_launch_eq h)
  rw [Logged.fold_eq_foldlM] at h
  induction plan generalizing sim with
  | nil =>
    cases h
    exact ⟨[], rfl, rfl, List.forall_mem_nil _, rfl, rfl, rfl⟩
  | cons m rest ih =>
    rw [List.foldlM_cons, Logged.result_bind, Checked.bind_eq_ok_iff] at h
    obtain ⟨next, hnext, hrest⟩ := h
    simp only [launch, Logged.result_bind, Logged.result_lift, Checked.bind_eq_ok_iff] at hnext
    obtain ⟨vm, hvm, _, -, hnext⟩ := hnext
    cases hnext
    rw [Pool.vm_eq_ok_iff, ← hpool] at hvm
    obtain ⟨added, hadded⟩ := ih hrest hpool
    exact ⟨_, .cons rfl hvm hadded⟩

/-! ### Plans and passes -/

variable [AllocationPolicy α π]

/-- A plan that is rejected puts nothing in flight. -/
theorem applyPlan_flights {answer : Except PlanRejection Nat}
    (h : (sim.applyPlan plan).result = .ok (answer, sim')) :
    (∃ rejection, answer = .error rejection ∧ sim.SameFlights sim')
    ∨ answer = .ok plan.length ∧ ∃ added, Launched sim plan added sim' := by
  rcases applyPlan_parts h with ⟨rfl, rfl, rfl⟩ | ⟨pool, last, -, hlast, rfl, rfl⟩ |
    ⟨_, rejection, pool, -, -, rfl, rfl⟩
  · exact .inr ⟨rfl, [], rfl, rfl, List.forall_mem_nil _, rfl, rfl, rfl⟩
  · obtain ⟨added, hadded⟩ := launched_fold hlast
    exact .inr ⟨rfl, added, hadded.framed ⟨rfl, rfl, rfl⟩ rfl ⟨rfl, rfl, rfl⟩ rfl⟩
  · exact .inl ⟨rejection, rfl, rfl, rfl, rfl⟩

/-- The migrations have been started by a pass: the policy has planned them for the pool as it
is. -/
def PassLaunched (sim : Simulation α π) (added : List (InFlight α)) (sim' : Simulation α π) :
    Prop :=
  sim.config.migrates = true ∧ ∃ plan policy,
    (AllocationPolicy.optimize sim.policy sim.pool sim.monitoring sim.id).result
      = .ok (plan, policy)
    ∧ Launched sim plan added sim'

theorem optimize_flights {n : Nat} (h : sim.optimize.result = .ok (n, sim')) :
    sim.SameFlights sim' ∨ ∃ added, sim.PassLaunched added sim' := by
  obtain ⟨last, monitoring, rfl, rfl | ⟨hmigrates, plan, policy, answer, hplan, happly⟩⟩ :=
    optimize_cases h
  · exact .inl ⟨rfl, rfl, rfl⟩
  · rcases applyPlan_flights happly with ⟨rejection, -, hsame⟩ | ⟨-, added, hadded⟩
    · exact .inl ⟨hsame.flights, hsame.started, hsame.time⟩
    · exact .inr ⟨added, hmigrates, plan, policy, hplan,
        hadded.framed ⟨rfl, rfl, rfl⟩ rfl ⟨rfl, rfl, rfl⟩ rfl⟩

/-! ### Steps -/

theorem placeVm_flights {v : VmId} {answer : Except PlacementError HostId}
    (h : (sim.placeVm v).result = .ok (answer, sim')) : sim.SameFlights sim' := by
  rcases placeVm_cases h with ⟨host, pool, -, -, rfl⟩ | ⟨error, -, rfl⟩
  · exact ⟨rfl, rfl, rfl⟩
  · exact ⟨rfl, rfl, rfl⟩

theorem retryPending_flights (h : sim.retryPending.result = .ok sim') : sim.SameFlights sim' := by
  have hstart : sim.SameFlights { sim with pending := .empty } := ⟨rfl, rfl, rfl⟩
  rw [retryPending] at h
  refine Logged.fold_invariant (P := sim.SameFlights) hstart ?_ h
  intro state v next _ hstate hnext
  rcases retry_cases hnext with ⟨-, rfl⟩ | ⟨-, rfl⟩ | ⟨host, pool, -, rfl⟩
  · exact hstate
  · exact ⟨hstate.flights, hstate.started, hstate.time⟩
  · exact ⟨hstate.flights, hstate.started, hstate.time⟩

omit [AllocationPolicy α π] in
theorem started_of_land {flight : InFlight α} (h : (sim.land flight).result = .ok sim') :
    sim'.started = sim.started := by
  rcases land_cases h with rfl | ⟨source, pool, -, rfl⟩
  · rfl
  · rfl

omit [AllocationPolicy α π] in
/-- Landing puts nothing in flight. -/
theorem landUntil_flights {time : α} {landed : Simulation α π}
    (h : (sim.landUntil time).result = .ok landed) :
    landed.inFlight = (sim.withoutDue time).inFlight ∧ landed.started = sim.started := by
  rw [landUntil_eq] at h
  have hstart : (sim.withoutDue time).started = sim.started := rfl
  refine Logged.fold_invariant (P := fun last =>
    last.inFlight = (sim.withoutDue time).inFlight ∧ last.started = sim.started) ⟨rfl, hstart⟩ ?_ h
  intro state flight next _ hstate hnext
  rw [inFlight_of_land hnext, started_of_land hnext]
  exact hstate

/-- All due migrations land, and then nothing is put in flight but by a pass of the step. -/
theorem step_flights (h : sim.step.result = .ok sim') :
    ∃ landed retried, (sim.landUntil sim.stepEnd).result = .ok landed
      ∧ (retryPending { landed with time := sim.stepEnd }).result = .ok retried
      ∧ SameFlights { landed with time := sim.stepEnd } retried
      ∧ (retried.SameFlights sim'
        ∨ retried.monitoringDue = true ∧ ∃ added, retried.PassLaunched added sim') := by
  obtain ⟨landed, retried, last, hlanded, hretried, hlast, rfl⟩ := step_pass h
  refine ⟨landed, retried, hlanded, hretried, retryPending_flights hretried, ?_⟩
  rcases hlast with ⟨-, rfl⟩ | ⟨hdue, n, hoptimize⟩
  · exact .inl ⟨rfl, rfl, rfl⟩
  · rcases optimize_flights hoptimize with hsame | ⟨added, hmigrates, plan, policy, hplan, hadded⟩
    · exact .inl ⟨hsame.flights, hsame.started, hsame.time⟩
    · exact .inr ⟨hdue, added, hmigrates, plan, policy, hplan,
        hadded.framed ⟨rfl, rfl, rfl⟩ rfl ⟨rfl, rfl, rfl⟩ rfl⟩

/-! ### Commands -/

/-- What a command does to the migrations in flight. -/
theorem obey_flights {command : Command α} (h : (sim.obey command).result = .ok sim') :
    sim.SameFlights sim' ∨ (∃ plan added, Launched sim plan added sim')
    ∨ command = .step ∧ sim.step.result = .ok sim' := by
  cases command with
  | addHost spec =>
    obtain ⟨id, hadd⟩ := Logged.exists_of_snd h
    obtain ⟨pool, -, rfl⟩ := addHost_cases hadd
    exact .inl ⟨rfl, rfl, rfl⟩
  | submitVm spec =>
    obtain ⟨v, hsubmit⟩ := Logged.exists_of_snd h
    obtain ⟨pool, -, rfl | ⟨host, pool', -, rfl⟩⟩ := submitVm_cases hsubmit
    · exact .inl ⟨rfl, rfl, rfl⟩
    · exact .inl ⟨rfl, rfl, rfl⟩
  | placeVm v =>
    obtain ⟨answer, hplace⟩ := Logged.exists_of_snd h
    exact .inl (placeVm_flights hplace)
  | releaseVm v =>
    obtain ⟨answer, hrelease⟩ := Logged.exists_of_snd h
    rcases releaseVm_cases hrelease with ⟨-, rfl⟩ | ⟨host, pool, -, rfl⟩
    · exact .inl ⟨rfl, rfl, rfl⟩
    · exact .inl ⟨rfl, rfl, rfl⟩
  | updateVmMips v mips =>
    obtain ⟨answer, hresize⟩ := Logged.exists_of_snd h
    rcases updateVmMips_cases hresize with rfl | ⟨pool, -, rfl⟩
    · exact .inl ⟨rfl, rfl, rfl⟩
    · exact .inl ⟨rfl, rfl, rfl⟩
  | applyPlan plan =>
    obtain ⟨answer, happly⟩ := Logged.exists_of_snd h
    rcases applyPlan_flights happly with ⟨rejection, -, hsame⟩ | ⟨-, added, hadded⟩
    · exact .inl hsame
    · exact .inr (.inl ⟨plan, added, hadded⟩)
  | optimize =>
    obtain ⟨n, hoptimize⟩ := Logged.exists_of_snd h
    rcases optimize_flights hoptimize with hsame | ⟨added, -, plan, policy, -, hadded⟩
    · exact .inl hsame
    · exact .inr (.inl ⟨plan, added, hadded⟩)
  | step => exact .inr (.inr ⟨rfl, h⟩)

end Simulation

end Datacenter
