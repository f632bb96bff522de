import Mathlib.Tactic.Ring
import Datacenter.Proofs.Course
import Datacenter.Proofs.ExactScalar

/-!
# Charged energy

The meter of a host counts energy up to the time at which it was told the power. An operation that
takes no time may tell it other powers, yet the energy up to the present stays. So a command that
takes time charges each host for it, at the power that the meter had before.

Main statements: `Charged.of_instant`, `obey_effect` and `charged_course`.
-/

namespace Datacenter

namespace EnergyMeter

variable {α : Type} [Scalar α]

/-- The power that the meter counts with, zero for an unknown host. -/
def powerOf (meter : EnergyMeter α) (host : HostId) : α :=
  match meter.hosts.get? host with
  | some host => host.power
  | none => 0

/-- Energy of the host in J if the power stays as it is until the given time. -/
def energyAt (meter : EnergyMeter α) (time : α) (host : HostId) : α :=
  match meter.hosts.get? host with
  | some host => host.consumed + (time - host.since) * host.power
  | none => 0

end EnergyMeter

namespace Simulation

section

variable {α π : Type} [Scalar α] {sim sim' : Simulation α π}

/-! ### What the meter knows -/

/-- The meter knows the hosts of the pool. -/
def Knows (sim : Simulation α π) : Prop :=
  ∀ g, (sim.meter.hosts.get? g).isSome = (sim.pool.hosts.get? g).isSome

/-- The meter has counted the energy of all hosts of the pool up to the present. -/
def Settled (sim : Simulation α π) : Prop :=
  ∀ g, (sim.meter.hosts.get? g).map HostMeter.since = (sim.pool.hosts.get? g).map fun _ => sim.time

omit [Scalar α] in
theorem Settled.knows (h : sim.Settled) : sim.Knows := by
  intro g
  have hsome := congrArg Option.isSome (h g)
  rw [Option.isSome_map, Option.isSome_map] at hsome
  exact hsome

omit [Scalar α] in
theorem isSome_of_sameHosts {pool pool' : Pool α} (h : pool.SameHosts pool') (g : HostId) :
    (pool'.hosts.get? g).isSome = (pool.hosts.get? g).isSome := by
  have hg := congrArg Option.isSome (h g)
  rw [Option.isSome_map, Option.isSome_map] at hg
  exact hg

omit [Scalar α] in
theorem Knows.of_sameHosts (h : sim.Knows) (hmeter : sim'.meter = sim.meter)
    (hhosts : sim.pool.SameHosts sim'.pool) : sim'.Knows := by
  intro g
  rw [hmeter, isSome_of_sameHosts hhosts]
  exact h g

/-- No host draws negative power, and the meter counts with none. -/
structure PowerNonneg (sim : Simulation α π) : Prop where
  models : ∀ g host, sim.pool.hosts.get? g = some host → ∀ u, 0 ≤ host.powerModel.draw u
  meters : ∀ g meter, sim.meter.hosts.get? g = some meter → 0 ≤ meter.power

theorem PowerNonneg.of_sameHosts (h : sim.PowerNonneg) (hmeter : sim'.meter = sim.meter)
    (hhosts : sim.pool.SameHosts sim'.pool) : sim'.PowerNonneg := by
  refine ⟨fun g host hg u => ?_, fun g meter hm => h.meters g meter (hmeter ▸ hm)⟩
  have hsame := hhosts g
  rw [hg, Option.map_some, eq_comm, Option.map_eq_some_iff] at hsame
  obtain ⟨before, hbefore, hsame⟩ := hsame
  have hmodel : before.powerModel = host.powerModel := congrArg (·.2.powerModel) hsame
  rw [← hmodel]
  exact h.models g before hbefore u

theorem get?_meterPower (sim : Simulation α π) (g : HostId) :
    sim.meterPower.meter.hosts.get? g = (sim.meter.hosts.get? g).map fun last =>
      match sim.pool.hosts.get? g with
      | some host => last.advance sim.time host.power
      | none => last := by
  rw [meterPower, EnergyMeter.updateAll, Table.get?_map]
  cases sim.pool.hosts.get? g with
  | none => rfl
  | some host => rfl

/-- When the meter is told the power of the hosts, it has counted up to the present for each of them
and counts on with what the host draws. -/
theorem Knows.map_meterPower (h : sim.Knows) (g : HostId) :
    (sim.meterPower.meter.hosts.get? g).map (fun meter => (meter.since, meter.power))
      = (sim.pool.hosts.get? g).map fun host => (sim.time, host.power) := by
  have hsome := h g
  rw [get?_meterPower]
  cases hm : sim.meter.hosts.get? g with
  | none =>
    cases hg : sim.pool.hosts.get? g with
    | none => rfl
    | some host => simp [hm, hg] at hsome
  | some meter =>
    cases hg : sim.pool.hosts.get? g with
    | none => simp [hm, hg] at hsome
    | some host => rfl

theorem Knows.settled_meterPower (h : sim.Knows) : sim.meterPower.Settled := by
  intro g
  have htold := congrArg (Option.map Prod.fst) (h.map_meterPower g)
  rwa [Option.map_map, Option.map_map] at htold

/-- When a migration comes up, time goes on to its end, the hosts stay, and the meter is told. -/
theorem land_ends {flight : InFlight α} (h : (sim.land flight).result = .ok sim') :
    ∃ between : Simulation α π, between.time = Scalar.larger flight.finish sim.time
      ∧ between.meter = sim.meter ∧ sim.pool.SameHosts between.pool
      ∧ sim' = between.meterPower := by
  rcases land_cases h with rfl | ⟨source, pool, hfinish, rfl⟩
  · exact ⟨sim.atFinish flight sim.inFlight, rfl, rfl, .refl _, rfl⟩
  · have hop : Pool.Op.Rearranges (.finishMigration flight.vm : Pool.Op α) := trivial
    have hhosts := Pool.Change.sameHosts hop (.finishMigration hfinish)
    exact ⟨{ sim.atFinish flight sim.inFlight with pool, completed := sim.completed + 1 },
      rfl, rfl, hhosts, rfl⟩

end

variable {K π : Type} [ExactScalar K] {sim between sim' last : Simulation K π}

theorem energyAt_meterPower (sim : Simulation K π) (g : HostId) :
    sim.meterPower.meter.energyAt sim.time g = sim.meter.energyAt sim.time g := by
  rw [EnergyMeter.energyAt, EnergyMeter.energyAt, get?_meterPower]
  cases sim.meter.hosts.get? g with
  | none => rfl
  | some meter =>
    cases sim.pool.hosts.get? g with
    | none => rfl
    | some host =>
      simp only [Option.map_some, HostMeter.advance]
      ring

/-- From the present on, all energy is drawn at the powers that the meter has. -/
theorem Settled.energyAt (h : sim.Settled) (time : K) (g : HostId) :
    sim.meter.energyAt time g
      = sim.meter.hostEnergy g + (time - sim.time) * sim.meter.powerOf g := by
  have hg := h g
  rw [EnergyMeter.energyAt, EnergyMeter.hostEnergy, EnergyMeter.powerOf]
  cases hm : sim.meter.hosts.get? g with
  | none => simp
  | some meter =>
    rw [hm, Option.map_some, eq_comm, Option.map_eq_some_iff] at hg
    obtain ⟨host, -, hsince⟩ := hg
    rw [hsince]

theorem PowerNonneg.powerOf (h : sim.PowerNonneg) (g : HostId) : 0 ≤ sim.meter.powerOf g := by
  rw [EnergyMeter.powerOf]
  split
  · rename_i meter hm
    exact h.meters g meter hm
  · exact le_refl 0

theorem PowerNonneg.meterPower (h : sim.PowerNonneg) : sim.meterPower.PowerNonneg := by
  refine ⟨h.models, fun g meter hm => ?_⟩
  rw [get?_meterPower, Option.map_eq_some_iff] at hm
  obtain ⟨last, hlast, rfl⟩ := hm
  cases hg : sim.pool.hosts.get? g with
  | none => exact h.meters g last hlast
  | some host =>
    simp only [HostMeter.advance, Host.power]
    split
    · exact le_refl 0
    · exact h.models g host hg _

theorem PowerNonneg.land (h : sim.PowerNonneg) {flight : InFlight K}
    (hland : (sim.land flight).result = .ok sim') : sim'.PowerNonneg := by
  obtain ⟨between, -, hmeter, hhosts, rfl⟩ := land_ends hland
  exact (h.of_sameHosts hmeter hhosts).meterPower

/-! ### What takes no time -/

/-- The time, the hosts and the energies up to the present stay, whatever happens to VMs. -/
structure Instant (sim sim' : Simulation K π) : Prop where
  time : sim'.time = sim.time
  hosts : sim.pool.SameHosts sim'.pool
  energy : ∀ g, sim'.meter.energyAt sim.time g = sim.meter.energyAt sim.time g
  knows : sim.Knows → sim'.Knows
  settled : sim.Settled → sim'.Settled
  nonneg : sim.PowerNonneg → sim'.PowerNonneg

namespace Instant

theorem refl (sim : Simulation K π) : Instant sim sim :=
  ⟨rfl, .refl _, fun _ => rfl, fun h => h, fun h => h, fun h => h⟩

theorem trans (hab : Instant sim between) (hbc : Instant between sim') : Instant sim sim' where
  time := hbc.time.trans hab.time
  hosts := hab.hosts.trans hbc.hosts
  energy g := by
    have hlater := hbc.energy g
    rw [hab.time] at hlater
    exact hlater.trans (hab.energy g)
  knows h := hbc.knows (hab.knows h)
  settled h := hbc.settled (hab.settled h)
  nonneg h := hbc.nonneg (hab.nonneg h)

theorem unmetered (htime : sim'.time = sim.time) (hmeter : sim'.meter = sim.meter)
    (hhosts : sim.pool.SameHosts sim'.pool) : Instant sim sim' := by
  refine ⟨htime, hhosts, fun g => by rw [hmeter], fun h => h.of_sameHosts hmeter hhosts,
    fun h g => ?_, fun h => h.of_sameHosts hmeter hhosts⟩
  have hg := h g
  have hs := isSome_of_sameHosts hhosts g
  rw [hmeter, hg, htime]
  cases hbefore : sim.pool.hosts.get? g with
  | none =>
    rw [hbefore, Option.isSome_none, Option.isSome_eq_false_iff, Option.isNone_iff_eq_none] at hs
    rw [hs]
  | some host =>
    rw [hbefore, Option.isSome_some, Option.isSome_iff_exists] at hs
    obtain ⟨host', hafter⟩ := hs
    rw [hafter]
    rfl

theorem meterPower (sim : Simulation K π) : Instant sim sim.meterPower where
  time := rfl
  hosts := .refl _
  energy := energyAt_meterPower sim
  knows h := h.settled_meterPower.knows
  settled h := h.knows.settled_meterPower
  nonneg h := h.meterPower

theorem metered (htime : between.time = sim.time) (hmeter : between.meter = sim.meter)
    (hhosts : sim.pool.SameHosts between.pool) : Instant sim between.meterPower :=
  (unmetered htime hmeter hhosts).trans (meterPower between)

theorem releaseVm {v : VmId} {answer : Option HostId}
    (h : (sim.releaseVm v).result = .ok (answer, sim')) : Instant sim sim' := by
  rcases releaseVm_cases h with ⟨-, rfl⟩ | ⟨host, pool, hrelease, rfl⟩
  · exact unmetered rfl rfl (.refl _)
  · have hop : Pool.Op.Rearranges (.release v : Pool.Op K) := trivial
    exact metered rfl rfl (Pool.Change.sameHosts hop (.release hrelease))

theorem updateVmMips {v : VmId} {mips : K} {answer : Except Refusal Unit}
    (h : (sim.updateVmMips v mips).result = .ok (answer, sim')) : Instant sim sim' := by
  rcases updateVmMips_cases h with rfl | ⟨pool, hresize, rfl⟩
  · exact refl _
  · exact metered rfl rfl (Pool.updateVmMips_sameHosts hresize)

variable [AllocationPolicy K π]

theorem submitVm {spec : VmSpec K} {v : VmId} (h : (sim.submitVm spec).result = .ok (v, sim')) :
    Instant sim sim' := by
  obtain ⟨pool, hadd, hcases⟩ := submitVm_cases h
  obtain ⟨-, -, rfl⟩ := (Pool.addVm_eq_ok_iff _ _ _ _).mp hadd
  rcases hcases with rfl | ⟨host, pool', hallocate, rfl⟩
  · exact unmetered rfl rfl (.refl _)
  · exact metered rfl rfl (Pool.allocate_steps hallocate).sameHosts

theorem placeVm {v : VmId} {answer : Except PlacementError HostId}
    (h : (sim.placeVm v).result = .ok (answer, sim')) : Instant sim sim' := by
  rcases placeVm_cases h with ⟨host, pool, -, hallocate, rfl⟩ | ⟨error, -, rfl⟩
  · exact metered rfl rfl (Pool.allocate_steps hallocate).sameHosts
  · exact refl _

theorem retry {v : VmId} (h : (sim.retry v).result = .ok sim') : Instant sim sim' := by
  rcases retry_cases h with ⟨-, rfl⟩ | ⟨-, rfl⟩ | ⟨host, pool, hallocate, rfl⟩
  · exact refl _
  · exact unmetered rfl rfl (.refl _)
  · exact metered rfl rfl (Pool.allocate_steps hallocate).sameHosts

theorem retryPending (h : sim.retryPending.result = .ok sim') : Instant sim sim' := by
  have hstart : Instant sim { sim with pending := .empty } := unmetered rfl rfl (.refl _)
  rw [Simulation.retryPending] at h
  refine Logged.fold_invariant (P := fun last => Instant sim last) hstart ?_ h
  intro state v next _ hstate hnext
  exact hstate.trans (retry hnext)

variable [KeepsLedger K π]

theorem applyPlan {plan : List (Migration K)} {answer : Except PlanRejection Nat}
    (h : (sim.applyPlan plan).result = .ok (answer, sim')) : Instant sim sim' := by
  rcases applyPlan_effect h with rfl | ⟨policy, pool, flights, started, hstart, rfl⟩ |
    ⟨policy, middle, pool, rejection, hstart, hrestore, rfl⟩
  · exact refl _
  · exact metered rfl rfl (Pool.startPlan_steps hstart).sameHosts
  · have hback := (Pool.startPlan_steps hstart).trans (Ledger.tryRestore_steps hrestore)
    exact unmetered rfl rfl hback.sameHosts

theorem optimize {started : Nat} (h : sim.optimize.result = .ok (started, sim')) :
    Instant sim sim' := by
  obtain ⟨last, monitoring, rfl, rfl | ⟨-, plan, policy, answer, -, happly⟩⟩ := optimize_cases h
  · exact unmetered rfl rfl (.refl _)
  · have hdecide : Instant sim { sim with policy } := unmetered rfl rfl (.refl _)
    exact (hdecide.trans (applyPlan happly)).trans (unmetered rfl rfl (.refl _))

end Instant

/-! ### What takes time -/

/-- Each host is charged for the time from the one simulation to the other, at the power that the
meter had. -/
def Charged (sim sim' : Simulation K π) : Prop :=
  ∀ g, sim'.meter.hostEnergy g
    = sim.meter.hostEnergy g + (sim'.time - sim.time) * sim.meter.powerOf g

/-- Time goes on with the same hosts, then something happens that takes no time, and the meter is
told. -/
theorem Charged.of_instant (h : sim.Settled) (hi : Instant between last)
    (hmeter : between.meter = sim.meter) (hhosts : sim.pool.SameHosts between.pool) :
    last.meterPower.Settled ∧ Charged sim last.meterPower := by
  have hpast : Instant sim { between with time := sim.time } := .unmetered rfl hmeter hhosts
  have hsettled : last.meterPower.Settled :=
    (hi.knows (hpast.knows h.knows)).settled_meterPower
  refine ⟨hsettled, fun g => ?_⟩
  have hnow := hsettled.energyAt last.time g
  rw [time_meterPower, sub_self, zero_mul, add_zero] at hnow
  -- Being told other powers leaves the energy up to now, so all of it is at the powers of before.
  calc last.meterPower.meter.hostEnergy g
      = last.meterPower.meter.energyAt last.time g := hnow.symm
    _ = last.meter.energyAt last.time g := energyAt_meterPower last g
    _ = between.meter.energyAt last.time g := by
      rw [hi.time]
      exact hi.energy g
    _ = sim.meter.hostEnergy g + (last.meterPower.time - sim.time) * sim.meter.powerOf g := by
      rw [hmeter]
      exact h.energyAt last.time g

theorem Instant.charged (hi : Instant sim sim') (h : sim.Settled) : Charged sim sim' := by
  intro g
  have hbefore := h.energyAt sim.time g
  have hafter := (hi.settled h).energyAt sim.time g
  rw [hi.time, sub_self, zero_mul, add_zero] at hafter
  rw [sub_self, zero_mul, add_zero] at hbefore
  rw [hi.time, sub_self, zero_mul, add_zero, ← hbefore, ← hafter]
  exact hi.energy g

theorem charged_land {flight : InFlight K} (h : sim.Settled)
    (hland : (sim.land flight).result = .ok sim') : sim'.Settled ∧ Charged sim sim' := by
  obtain ⟨between, -, hmeter, hhosts, rfl⟩ := land_ends hland
  exact Charged.of_instant h (.refl between) hmeter hhosts

theorem charged_addHost (h : sim.Settled) {spec : HostSpec K} {id : HostId}
    (hadd : (sim.addHost spec).result = .ok (id, sim')) : sim'.Settled ∧ Charged sim sim' := by
  obtain ⟨pool, hpool, rfl⟩ := addHost_cases hadd
  obtain ⟨-, rfl, rfl⟩ := (Pool.addHost_eq_ok_iff _ _ _ _).mp hpool
  refine ⟨fun g => ?_, fun g => ?_⟩
  · rw [EnergyMeter.update, Table.get?_insert, Table.get?_insert]
    split
    · rfl
    · exact h g
  · rw [sub_self, zero_mul, add_zero, EnergyMeter.hostEnergy, EnergyMeter.hostEnergy,
      EnergyMeter.update, Table.get?_insert]
    have hg := h g
    -- If the meter knew the new host already, it would have counted up to now.
    by_cases hnew : g = sim.pool.nextHost
    · rw [if_pos hnew, ← hnew]
      cases hm : sim.meter.hosts.get? g with
      | none => simp [HostMeter.advance]
      | some meter =>
        rw [hm, Option.map_some, eq_comm, Option.map_eq_some_iff] at hg
        obtain ⟨host, -, hsince⟩ := hg
        simp [HostMeter.advance, hsince]
    · rw [if_neg hnew]

theorem PowerNonneg.addHost (h : sim.PowerNonneg) {spec : HostSpec K} {id : HostId}
    (hdraw : ∀ u, 0 ≤ spec.powerModel.draw u)
    (hadd : (sim.addHost spec).result = .ok (id, sim')) : sim'.PowerNonneg := by
  obtain ⟨pool, hpool, rfl⟩ := addHost_cases hadd
  obtain ⟨-, rfl, rfl⟩ := (Pool.addHost_eq_ok_iff _ _ _ _).mp hpool
  refine ⟨fun g host hg => ?_, fun g meter hm => ?_⟩
  · rw [Table.get?_insert] at hg
    split at hg
    · cases hg
      exact hdraw
    · exact h.models g host hg
  · rw [EnergyMeter.update, Table.get?_insert] at hm
    split at hm
    · cases hm
      exact le_refl 0
    · exact h.meters g meter hm

variable [AllocationPolicy K π] [KeepsLedger K π]

/-- A step ends an interval after its beginning. What happens there takes no time. -/
theorem step_ends (h : sim.step.result = .ok sim') :
    ∃ landed last, (sim.landUntil sim.stepEnd).result = .ok landed
      ∧ Instant { landed with time := sim.stepEnd } last ∧ sim' = last.meterPower := by
  obtain ⟨landed, retried, last, hlanded, hretried, hlast, rfl⟩ := step_cases h
  have hretry := Instant.retryPending hretried
  refine ⟨landed, last, hlanded, ?_, rfl⟩
  rcases hlast with rfl | ⟨started, hoptimize⟩
  · exact hretry
  · exact hretry.trans (.optimize hoptimize)

theorem charged_step (h : sim.Settled) (hstep : sim.step.result = .ok sim') :
    (sim :: (sim.landings ++ [sim'])).IsChain Charged ∧ sim'.Settled := by
  obtain ⟨landed, last, hlanded, hend, rfl⟩ := step_ends hstep
  have hstart : (sim.withoutDue sim.stepEnd).Settled := h
  have hlast : landed.Settled → Charged landed last.meterPower :=
    fun hs => (Charged.of_instant hs hend rfl (.refl _)).2
  have hland : ∀ (between : Simulation K π) (flight : InFlight K) (after : Simulation K π),
      flight ∈ sim.dueUntil sim.stepEnd → between.Settled →
      (between.land flight).result = .ok after → after.Settled ∧ Charged between after :=
    fun _ _ _ _ hs hone => charged_land hs hone
  obtain ⟨-, hs⟩ := forall_landings hstart
    (fun between flight after hmem hs hone => (hland between flight after hmem hs hone).1) hlanded
  refine ⟨?_, (Charged.of_instant hs hend rfl (.refl _)).1⟩
  exact isChain_landings hstart (fun _ hr => hr) hland hlanded hlast

/-- Only steps take time, and the hosts stay unless one is added. -/
theorem obey_effect {command : Command K} (h : (sim.obey command).result = .ok sim') :
    (command = .step ∧ sim.step.result = .ok sim')
    ∨ sim.stages command = []
      ∧ ((∃ spec id, command = .addHost spec ∧ (sim.addHost spec).result = .ok (id, sim'))
        ∨ Instant sim sim') := by
  cases command with
  | step => exact .inl ⟨rfl, h⟩
  | addHost spec =>
    obtain ⟨id, hadd⟩ := Logged.exists_of_snd h
    exact .inr ⟨rfl, .inl ⟨spec, id, rfl, hadd⟩⟩
  | submitVm spec =>
    obtain ⟨answer, hsubmit⟩ := Logged.exists_of_snd h
    exact .inr ⟨rfl, .inr (.submitVm hsubmit)⟩
  | placeVm v =>
    obtain ⟨answer, hplace⟩ := Logged.exists_of_snd h
    exact .inr ⟨rfl, .inr (.placeVm hplace)⟩
  | releaseVm v =>
    obtain ⟨answer, hrelease⟩ := Logged.exists_of_snd h
    exact .inr ⟨rfl, .inr (.releaseVm hrelease)⟩
  | updateVmMips v mips =>
    obtain ⟨answer, hresize⟩ := Logged.exists_of_snd h
    exact .inr ⟨rfl, .inr (.updateVmMips hresize)⟩
  | applyPlan plan =>
    obtain ⟨answer, happly⟩ := Logged.exists_of_snd h
    exact .inr ⟨rfl, .inr (.applyPlan happly)⟩
  | optimize =>
    obtain ⟨started, hoptimize⟩ := Logged.exists_of_snd h
    exact .inr ⟨rfl, .inr (.optimize hoptimize)⟩

theorem charged_obey (h : sim.Settled) {command : Command K}
    (hobey : (sim.obey command).result = .ok sim') :
    (sim :: (sim.stages command ++ [sim'])).IsChain Charged ∧ sim'.Settled := by
  rcases obey_effect hobey with ⟨rfl, hstep⟩ | ⟨hstages, hquick⟩
  · exact charged_step h hstep
  · have hone : sim'.Settled ∧ Charged sim sim' := by
      rcases hquick with ⟨spec, id, -, hadd⟩ | hi
      · exact charged_addHost h hadd
      · exact ⟨hi.settled h, hi.charged h⟩
    rw [hstages]
    exact ⟨.cons_cons hone.2 (.singleton _), hone.1⟩

theorem PowerNonneg.step (h : sim.PowerNonneg) (hstep : sim.step.result = .ok sim') :
    (∀ s ∈ sim.landings, s.PowerNonneg) ∧ sim'.PowerNonneg := by
  obtain ⟨landed, last, hlanded, hend, rfl⟩ := step_ends hstep
  have hstart : (sim.withoutDue sim.stepEnd).PowerNonneg := ⟨h.models, h.meters⟩
  obtain ⟨hall, hl⟩ := forall_landings hstart (fun _ _ _ _ hs hland => hs.land hland) hlanded
  exact ⟨hall, (hend.nonneg ⟨hl.models, hl.meters⟩).meterPower⟩

theorem PowerNonneg.obey (h : sim.PowerNonneg) {command : Command K}
    (hdraw : ∀ spec, command = .addHost spec → ∀ u, 0 ≤ spec.powerModel.draw u)
    (hobey : (sim.obey command).result = .ok sim') :
    ∀ s ∈ sim.stages command ++ [sim'], s.PowerNonneg := by
  rcases obey_effect hobey with ⟨rfl, hstep⟩ | ⟨hstages, hquick⟩
  · obtain ⟨hall, hlast⟩ := h.step hstep
    exact List.forall_mem_append.mpr ⟨hall, List.forall_mem_singleton.mpr hlast⟩
  · rw [hstages, List.nil_append, List.forall_mem_singleton]
    rcases hquick with ⟨spec, id, rfl, hadd⟩ | hi
    · exact h.addHost (hdraw spec rfl) hadd
    · exact hi.nonneg h

/-- Along a whole run, each host is charged from one simulation to the next. -/
theorem charged_course (h : sim.Settled) {commands : List (Command K)}
    (hrun : (sim.run commands).result = .ok last) :
    (sim :: sim.course commands).IsChain Charged ∧ last.Settled := by
  have hsettled : ∀ before between, (sim.run before).result = .ok between → between.Settled :=
    fun before between hbefore => run_invariant (P := Settled) h
      (fun _ _ _ _ _ _ _ hs hnext => (charged_obey hs hnext).2) hbefore
  refine ⟨isChain_course ?_ hrun, hsettled commands last hrun⟩
  intro before command after between next _ hbefore hnext
  exact (charged_obey (hsettled before between hbefore) hnext).1

end Simulation

end Datacenter
