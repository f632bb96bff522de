import Mathlib.Data.Rat.Sqrt
import Datacenter.Proofs.Arrivals
import Datacenter.Proofs.Charges
import Datacenter.Proofs.ExactTotals

/-!
# Metered energy

Without rounding, the meter always has the power that each host draws. A plan that is undone does
not tell the meter, but then all hosts are as they were. So the metered energy of a host is the sum
of what it draws along the run, and a migration that comes up within a step divides the step at its
own time.

Main statements: `Metered.obey`, `times_of_landed` and `energy_of_chain`.
-/

namespace Datacenter

/-! ### Power of hosts that are alike -/

theorem Host.Alike.power {K : Type} [ExactScalar K] {host host' : Host K} (h : host.Alike host')
    (he : host.Exact fun d => d.mips) (he' : host'.Exact fun d => d.mips) :
    host'.power = host.power := by
  have hidle : host'.isIdle = host.isIdle := by
    rw [isIdle, isIdle, Table.isEmpty, Table.isEmpty, Table.isEmpty, Table.isEmpty,
      Table.size_eq_of_get? h.resident, Table.size_eq_of_get? h.incoming]
  have htotal : host'.residentTotal.mips = host.residentTotal.mips := by
    rw [he'.resident.total, he.resident.total]
    exact Table.total_eq_of_get? h.resident _
  have hload : host'.cpuUtilization = host.cpuUtilization := by
    rw [cpuUtilization, cpuUtilization, totalMips, totalMips, htotal, h.same.2]
  rw [Host.power, Host.power, hidle, hload, h.same.2]

theorem Pool.Arranged.power {K : Type} [ExactScalar K] {pool pool' : Pool K}
    (ha : pool.Arranged pool') (hs : Steps (Op.AsksFor (0 ≤ ·)) empty pool)
    (hs' : Steps (Op.AsksFor (0 ≤ ·)) empty pool') (g : HostId) :
    (pool'.hosts.get? g).map Host.power = (pool.hosts.get? g).map Host.power := by
  have hempty : (empty : Pool K).Reachable := .refl _
  have halike := ha.hosts_alike (hs.reachable hempty) (hs'.reachable hempty) g
  have hexact := hs.exact_mips.2 g
  have hexact' := hs'.exact_mips.2 g
  generalize pool.hosts.get? g = before at halike hexact ⊢
  generalize pool'.hosts.get? g = after at halike hexact' ⊢
  cases halike with
  | none => rfl
  | some h => exact congrArg some (h.power (hexact _ rfl) (hexact' _ rfl))

namespace Simulation

section

variable {α π : Type} [Scalar α] {sim between sim' : Simulation α π}

/-! ### What the meter is told -/

/-- The meter has the power that each host of the pool draws. -/
def Metered (sim : Simulation α π) : Prop :=
  ∀ g, (sim.meter.hosts.get? g).map HostMeter.power = (sim.pool.hosts.get? g).map Host.power

/-- What the host draws, zero for an unknown host. -/
def hostPower (sim : Simulation α π) (g : HostId) : α :=
  match sim.pool.hosts.get? g with
  | some host => host.power
  | none => 0

theorem Metered.knows (h : sim.Metered) : sim.Knows := by
  intro g
  have hsome := congrArg Option.isSome (h g)
  rw [Option.isSome_map, Option.isSome_map] at hsome
  exact hsome

theorem Metered.powerOf (h : sim.Metered) (g : HostId) :
    sim.meter.powerOf g = sim.hostPower g := by
  have hg := h g
  rw [EnergyMeter.powerOf, hostPower]
  cases hm : sim.meter.hosts.get? g with
  | none =>
    rw [hm, Option.map_none, eq_comm, Option.map_eq_none_iff] at hg
    rw [hg]
  | some meter =>
    rw [hm, Option.map_some, eq_comm, Option.map_eq_some_iff] at hg
    obtain ⟨host, hhost, hpower⟩ := hg
    rw [hhost]
    exact hpower.symm

theorem Knows.metered_meterPower (h : sim.Knows) : sim.meterPower.Metered := by
  intro g
  have htold := congrArg (Option.map Prod.snd) (h.map_meterPower g)
  rwa [Option.map_map, Option.map_map] at htold

theorem Metered.told (h : sim.Metered) (hmeter : between.meter = sim.meter)
    (hhosts : sim.pool.SameHosts between.pool) : between.meterPower.Metered :=
  (h.knows.of_sameHosts hmeter hhosts).metered_meterPower

theorem Metered.land (h : sim.Metered) {flight : InFlight α}
    (hland : (sim.land flight).result = .ok sim') : sim'.Metered := by
  obtain ⟨between, -, hmeter, hhosts, rfl⟩ := land_ends hland
  exact h.told hmeter hhosts

end

variable {K π : Type} [ExactScalar K] {sim sim' last : Simulation K π} [AllocationPolicy K π]
  [KeepsLedger K π]

theorem Metered.applyPlan (h : sim.Metered)
    (hs : Pool.Steps (Pool.Op.AsksFor (0 ≤ ·)) Pool.empty sim.pool) {plan : List (Migration K)}
    {answer : Except PlanRejection Nat}
    (happly : (sim.applyPlan plan).result = .ok (answer, sim')) : sim'.Metered := by
  rcases applyPlan_effect happly with rfl | ⟨policy, pool, flights, started, hstart, rfl⟩ |
    ⟨policy, middle, pool, rejection, hstart, hrestore, rfl⟩
  · exact h
  · exact h.told rfl (Pool.startPlan_steps hstart).sameHosts
  · -- The meter is not told, and need not be.
    have hback := (Pool.startPlan_steps hstart).trans (Ledger.tryRestore_steps hrestore)
    have hs' := hs.trans (hback.mono fun _ hop => hop.asksFor (0 ≤ ·))
    have hempty : (Pool.empty : Pool K).Reachable := .refl _
    have harranged := Pool.undo_arranged (hs.reachable hempty).ownership hstart hrestore
    exact fun g => (h g).trans (harranged.power hs hs' g).symm

theorem Metered.step (h : sim.Metered) (hstep : sim.step.result = .ok sim') :
    (∀ s ∈ sim.landings, s.Metered) ∧ sim'.Metered := by
  obtain ⟨landed, last, hlanded, hend, rfl⟩ := step_ends hstep
  have hstart : (sim.withoutDue sim.stepEnd).Metered := h
  obtain ⟨hall, hm⟩ := forall_landings hstart (fun _ _ _ _ hs hland => hs.land hland) hlanded
  exact ⟨hall, (hend.knows hm.knows).metered_meterPower⟩

theorem Metered.obey (h : sim.Metered)
    (hs : Pool.Steps (Pool.Op.AsksFor (0 ≤ ·)) Pool.empty sim.pool) {command : Command K}
    (hobey : (sim.obey command).result = .ok sim') :
    ∀ s ∈ sim.stages command ++ [sim'], s.Metered := by
  have hone : sim'.Metered → ∀ s ∈ ([] : List (Simulation K π)) ++ [sim'], s.Metered := by
    intro hm s hmem
    rw [List.nil_append, List.mem_singleton] at hmem
    exact hmem ▸ hm
  cases command with
  | addHost spec =>
    obtain ⟨id, hadd⟩ := Logged.exists_of_snd hobey
    obtain ⟨pool, hpool, rfl⟩ := addHost_cases hadd
    obtain ⟨-, rfl, rfl⟩ := (Pool.addHost_eq_ok_iff _ _ _ _).mp hpool
    refine hone fun g => ?_
    rw [EnergyMeter.update, Table.get?_insert, Table.get?_insert]
    split
    · rfl
    · exact h g
  | submitVm spec =>
    obtain ⟨v, hsubmit⟩ := Logged.exists_of_snd hobey
    obtain ⟨pool, hadd, hcases⟩ := submitVm_cases hsubmit
    obtain ⟨-, -, rfl⟩ := (Pool.addVm_eq_ok_iff _ _ _ _).mp hadd
    rcases hcases with rfl | ⟨host, pool', hallocate, rfl⟩
    · exact hone h
    · exact hone (h.told rfl (Pool.allocate_steps hallocate).sameHosts)
  | placeVm v =>
    obtain ⟨answer, hplace⟩ := Logged.exists_of_snd hobey
    rcases placeVm_cases hplace with ⟨host, pool, -, hallocate, rfl⟩ | ⟨error, -, rfl⟩
    · exact hone (h.told rfl (Pool.allocate_steps hallocate).sameHosts)
    · exact hone h
  | releaseVm v =>
    obtain ⟨answer, hrelease⟩ := Logged.exists_of_snd hobey
    rcases releaseVm_cases hrelease with ⟨-, rfl⟩ | ⟨host, pool, hdone, rfl⟩
    · exact hone h
    · have hop : Pool.Op.Rearranges (.release v : Pool.Op K) := trivial
      exact hone (h.told rfl (Pool.Change.sameHosts hop (.release hdone)))
  | updateVmMips v mips =>
    obtain ⟨answer, hresize⟩ := Logged.exists_of_snd hobey
    rcases updateVmMips_cases hresize with rfl | ⟨pool, hdone, rfl⟩
    · exact hone h
    · exact hone (h.told rfl (Pool.updateVmMips_sameHosts hdone))
  | applyPlan plan =>
    obtain ⟨answer, happly⟩ := Logged.exists_of_snd hobey
    exact hone (h.applyPlan hs happly)
  | optimize =>
    obtain ⟨started, hoptimize⟩ := Logged.exists_of_snd hobey
    obtain ⟨last, monitoring, rfl, rfl | ⟨-, plan, policy, answer, -, happly⟩⟩ :=
      optimize_cases hoptimize
    · exact hone h
    · have hdecided : ({ sim with policy } : Simulation K π).Metered := h
      have hm : last.Metered := hdecided.applyPlan hs happly
      exact hone hm
  | step =>
    obtain ⟨hall, hm⟩ := h.step hobey
    intro s hmem
    rcases List.mem_append.mp hmem with hmem | hmem
    · exact hall s hmem
    · exact List.mem_singleton.mp hmem ▸ hm

/-! ### When migrations come up -/

omit [AllocationPolicy K π] [KeepsLedger K π] in
theorem time_of_land {flight : InFlight K} (h : (sim.land flight).result = .ok sim') :
    sim'.time = max flight.finish sim.time := by
  obtain ⟨between, htime, -, -, rfl⟩ := land_ends h
  rw [time_meterPower, htime, Scalar.larger_eq_max]

omit [AllocationPolicy K π] [KeepsLedger K π] in
/-- Each migration comes up at its own time, unless this has passed before the first one. -/
theorem times_of_landed {due : List (InFlight K)}
    (hdue : due.Pairwise fun a b => a.finish ≤ b.finish)
    (h : (Logged.fold land sim due).result = .ok last) :
    (sim.landed due).map (·.time) = due.map fun flight => max flight.finish sim.time := by
  rw [Logged.fold_eq_foldlM] at h
  induction due generalizing sim with
  | nil => rfl
  | cons flight due ih =>
    rw [List.foldlM_cons, Logged.result_bind, Checked.bind_eq_ok_iff] at h
    obtain ⟨next, hnext, hrest⟩ := h
    obtain ⟨hfirst, hdue⟩ := List.pairwise_cons.mp hdue
    have htime := time_of_land hnext
    -- Whether the start or the first migration is later, it makes no difference for the others.
    have hlater : due.map (fun x => max x.finish next.time)
        = due.map fun x => max x.finish sim.time := by
      refine List.map_congr_left fun x hx => ?_
      rw [htime, ← max_assoc, max_eq_left (hfirst x hx)]
    rw [landed, hnext]
    simp only [List.map_cons, ih hdue hrest, hlater]
    rw [htime]

omit [KeepsLedger K π] [AllocationPolicy K π] in
theorem InFlight.pairwise_enqueue (f : InFlight K) {queue : List (InFlight K)}
    (h : queue.Pairwise fun a b => a.finish ≤ b.finish) :
    (f.enqueue queue).Pairwise fun a b => a.finish ≤ b.finish := by
  refine InFlight.pairwise_enqueue_of le_trans (fun x _ hbefore => ?_) (fun x _ hafter => ?_) h
  · by_contra hlt
    have hlt := lt_of_not_ge hlt
    simp [InFlight.landsBefore, Scalar.comesBefore, hlt, not_lt_of_gt hlt] at hbefore
  · by_contra hlt
    have hlt := lt_of_not_ge hlt
    simp [InFlight.landsBefore, Scalar.comesBefore, hlt] at hafter

/-- The migration that finishes first is in front. -/
def InOrder (sim : Simulation K π) : Prop :=
  sim.inFlight.Pairwise fun a b => a.finish ≤ b.finish

omit [KeepsLedger K π] in
theorem Moves.inOrder {rates : K → Prop} {log : List (LogEntry K)} (hr : sim.pool.Reachable)
    (hs : sim.InOrder) (h : Moves rates sim log sim') : sim'.InOrder := by
  have hboth : sim'.pool.Reachable ∧ sim'.InOrder := by
    refine h.invariant (P := fun _ last => last.pool.Reachable ∧ last.InOrder) ⟨hr, hs⟩ ?_
    intro _ events between next ⟨hreach, horder⟩ hm
    refine ⟨hm.pool_steps.reachable hreach, ?_⟩
    cases hm.traffic hreach.ownership with
    | still _ _ hqueue | leave _ _ hqueue =>
      rw [InOrder, hqueue]
      exact horder
    | @depart f d _ _ _ _ hqueue _ =>
      rw [InOrder, hqueue]
      exact InFlight.pairwise_enqueue f horder
    | arrive hq _ _ _ hqueue | lapse hq _ _ _ hqueue =>
      rw [InOrder, hq] at horder
      rw [InOrder, hqueue]
      exact (List.pairwise_cons.mp horder).2
  exact hboth.2

/-! ### Runs -/

/-- What the host draws along the simulations, from each one to the next. -/
def energyAlong (g : HostId) : List (Simulation K π) → K
  | sim :: next :: rest =>
    (next.time - sim.time) * sim.hostPower g + energyAlong g (next :: rest)
  | _ => 0

omit [AllocationPolicy K π] [KeepsLedger K π] in
theorem energy_of_chain {rest : List (Simulation K π)} (hchain : (sim :: rest).IsChain Charged)
    (hmetered : ∀ s ∈ sim :: rest, s.Metered) (hlast : (sim :: rest).getLast? = some last)
    (g : HostId) :
    last.meter.hostEnergy g = sim.meter.hostEnergy g + energyAlong g (sim :: rest) := by
  induction rest generalizing sim with
  | nil =>
    rw [List.getLast?_singleton, Option.some.injEq] at hlast
    have hnone : energyAlong g [sim] = 0 := rfl
    rw [hnone, add_zero, hlast]
  | cons next rest ih =>
    obtain ⟨hfirst, hchain⟩ := List.isChain_cons_cons.mp hchain
    obtain ⟨hm, hmetered⟩ := List.forall_mem_cons.mp hmetered
    rw [List.getLast?_cons_cons] at hlast
    rw [ih hchain hmetered hlast, hfirst g, hm.powerOf, energyAlong, add_assoc]

theorem metered_course {config : Config K} {policy : π} {id : Nat} {commands : List (Command K)}
    (hr : ∀ command ∈ commands, command.AsksFor (0 ≤ ·)) :
    ∀ s ∈ create config policy id :: (create config policy id).course commands, s.Metered := by
  have hstart : (create config policy id).Metered := fun _ => rfl
  refine forall_course hstart ?_
  intro before command after between next hcommands hbefore hm hnext
  have hasks : ∀ command ∈ before, command.AsksFor (0 ≤ ·) :=
    fun command hc => hr command (hcommands ▸ List.mem_append_left _ hc)
  exact hm.obey ((traces_run _ hasks).moves hbefore).pool_steps hnext

/-- After each command, and after each migration that comes up, the meter has the power of each
host. Its energy is counted up to the present, and is what the host drew from each simulation of the
run to the next. A migration that comes up within a step divides the step at its own time. -/
theorem energy_misses_nothing {config : Config K} {policy : π} {id : Nat}
    {commands : List (Command K)} (hr : ∀ command ∈ commands, command.AsksFor (0 ≤ ·))
    (h : ((create config policy id).run commands).result = .ok sim) :
    (∀ g host, sim.pool.hosts.get? g = some host → ∃ meter, sim.meter.hosts.get? g = some meter
      ∧ meter.power = host.power ∧ meter.since = sim.time)
    ∧ (∀ s ∈ (create config policy id).course commands, s.Metered)
    ∧ (∀ g, sim.meter.hostEnergy g
      = energyAlong g (create config policy id :: (create config policy id).course commands))
    ∧ ∀ next, sim.step.result = .ok next → next.time = sim.stepEnd
      ∧ sim.landings.map (·.time)
        = (sim.dueUntil sim.stepEnd).map fun flight => max flight.finish sim.time := by
  have hsettled : (create config policy id).Settled := fun _ => rfl
  obtain ⟨hchain, hnow⟩ := charged_course hsettled h
  have halong : ∀ s ∈ create config policy id :: (create config policy id).course commands,
      s.Metered := metered_course hr
  have hm : sim.Metered := halong sim (List.mem_of_getLast? (getLast?_course h))
  refine ⟨fun g host hg => ?_, (List.forall_mem_cons.mp halong).2, fun g => ?_,
    fun next hnext => ?_⟩
  · have hpower := hm g
    have hsince := hnow g
    rw [hg, Option.map_some, Option.map_eq_some_iff] at hpower hsince
    obtain ⟨meter, hmeter, hpower⟩ := hpower
    obtain ⟨same, hsame, hsince⟩ := hsince
    rw [hmeter, Option.some.injEq] at hsame
    exact ⟨meter, hmeter, hpower, hsame ▸ hsince⟩
  · have hzero : (create config policy id).meter.hostEnergy g = 0 := rfl
    rw [energy_of_chain hchain halong (getLast?_course h), hzero, zero_add]
  · obtain ⟨landed, last, hlanded, hend, rfl⟩ := step_ends hnext
    have hcreate : (create config policy id).InOrder := List.Pairwise.nil
    have hempty : (create config policy id).pool.Reachable := .refl _
    have horder : sim.InOrder := Moves.inOrder hempty hcreate ((traces_run _ hr).moves h)
    rw [landUntil_eq] at hlanded
    have hdue : (sim.dueUntil sim.stepEnd).Pairwise fun a b => a.finish ≤ b.finish :=
      List.Pairwise.sublist (List.takeWhile_sublist _) horder
    exact ⟨hend.time, times_of_landed hdue hlanded⟩

/-- A VM moves from the one host to the other, and lands after eight and a half seconds. -/
def dividedRun : List (Command ℚ) :=
  let host : HostSpec ℚ := ⟨"host", 4, 1000, 8192, 1000, 100000, .linear 200 (1 / 2)⟩
  [.addHost host, .addHost host, .submitVm ⟨"tenant", 1, 1000, 1, 1000, 1000⟩,
    .applyPlan [⟨0, 0, 1, 7, .distribute, ⟨0, 0, 0⟩, ⟨0, 0, 0⟩, none⟩], .step]

def dividedStart : Simulation ℚ (SingleThreshold ℚ) :=
  let thresholds : Thresholds ℚ := ⟨4 / 5, 3 / 10⟩
  create ⟨"datacenter", "SingleThreshold", thresholds, 30, 30, 3, false, 1 / 2, [], []⟩
    (.ofThresholds thresholds) 7

theorem dividedRun_energy : (∀ command ∈ dividedRun, command.AsksFor (0 ≤ ·))
    ∧ ∃ sim, (dividedStart.run dividedRun).result = .ok sim
      ∧ (dividedStart.course dividedRun).map (·.time) = [0, 0, 0, 0, 17 / 2, 30]
      ∧ sim.meter.hostEnergy 0 = 17 / 2 * 125 ∧ sim.meter.hostEnergy 1 = 17 / 2 * 100 + 43 / 2 * 125
      ∧ (∀ g, sim.meter.hostEnergy g
        = energyAlong g (dividedStart :: dividedStart.course dividedRun)) := by
  have hasks : ∀ command ∈ dividedRun, command.AsksFor (0 ≤ ·) := by
    simp [dividedRun, Command.AsksFor]
  have hrun : ((dividedStart.run dividedRun).result.toOption.any fun sim =>
      (dividedStart.course dividedRun).map (·.time) == [0, 0, 0, 0, 17 / 2, 30]
        && sim.meter.hostEnergy 0 == 17 / 2 * 125
        && sim.meter.hostEnergy 1 == 17 / 2 * 100 + 43 / 2 * 125) = true := by
    decide +kernel
  obtain ⟨sim, hsim, htest⟩ := Checked.eq_ok_of_any hrun
  simp only [Bool.and_eq_true, beq_iff_eq] at htest
  obtain ⟨-, -, halong, -⟩ := energy_misses_nothing hasks hsim
  exact ⟨hasks, sim, hsim, htest.1.1, htest.1.2, htest.2, halong⟩

end Simulation

end Datacenter
