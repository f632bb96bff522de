import Datacenter.Simulation.Step
import Datacenter.Proofs.Rearrangements

/-!
# Moves of a simulation

Whatever an operation of a simulation does is a chain of moves, and what it records are the events
of these moves. Each move is told once: when it can be made, what it records and what the simulation
is after it. An operation that ends in a fault has made some of its moves.

Main statements: `Moves.invariant`, `Traces.bind` and `Moves.pool_steps`.
-/

namespace Datacenter

variable {α : Type}

/-- The event tells of no change to hosts, VMs or migrations. -/
def Event.isNeutral : Event α → Bool
  | .restoreFailed _ | .hostClassified _ | .hostNotRelieved _ | .hostNotConsolidated _
  | .vmNotPlaced _ _ | .vmNotResized _ _ | .planMade _ | .planRejected _ | .stepMade => true
  | .hostAdded _ _ | .vmPlaced _ _ | .vmReleased _ _ | .vmResized _ _ | .migrationStarted _ _
  | .migrationCancelled _ | .migrationCompleted _ _ _ | .migrationFailed _ _ => false

namespace Simulation

variable {π : Type}

/-- The event with the time and the name of the simulation. -/
def stamped (sim : Simulation α π) (event : Event α) : LogEntry α :=
  ⟨some ⟨sim.time, sim.config.name⟩, event⟩

variable [Scalar α]

/-- The simulation when it takes up a migration that has finished. -/
def atFinish (sim : Simulation α π) (flight : InFlight α) (rest : List (InFlight α)) :
    Simulation α π :=
  { sim with inFlight := rest, time := Scalar.larger flight.finish sim.time }

/-- The host that a VM moves to. -/
def targetOf (sim : Simulation α π) (v : VmId) : Option HostId :=
  (sim.pool.vms.get? v).bind (·.migrationTarget)

/-- A migration that starts now, in flight. -/
def takeOff (sim : Simulation α π) (m : Migration α) (duration : α) : InFlight α :=
  ⟨sim.time + duration, sim.started + 1, m.vm, m.target⟩

variable [AllocationPolicy α π]

/-- One change of a simulation, and what it records. VMs ask for admitted rates. -/
inductive Move (rates : α → Prop) : Simulation α π → List (LogEntry α) → Simulation α π → Prop where
  | note {sim : Simulation α π} {entry : LogEntry α} (h : entry.event.isNeutral = true) :
    Move rates sim [entry] sim
  | addHost {sim : Simulation α π} {spec : HostSpec α} {id : HostId} {pool : Pool α}
    (h : sim.pool.addHost spec = .ok (id, pool)) :
    Move rates sim [sim.stamped (.hostAdded id spec.name)]
      { sim with pool, meter := sim.meter.update id sim.time 0 }
  | addVm {sim : Simulation α π} {spec : VmSpec α} {v : VmId} {pool : Pool α}
    (hr : rates spec.mips) (h : sim.pool.addVm spec = .ok (v, pool)) :
    Move rates sim [] { sim with pool }
  | place {sim : Simulation α π} {v : VmId} {host : HostId} {pool : Pool α}
    (h : AllocationPolicy.place sim.policy sim.pool v = .done (host, pool)) :
    Move rates sim [sim.stamped (.vmPlaced v host)] { sim with pool }
  | wait {sim : Simulation α π} {v : VmId} {error : PlacementError}
    (h : AllocationPolicy.place sim.policy sim.pool v = .refused error) :
    Move rates sim [] (sim.wait v)
  | leaveQueue (sim : Simulation α π) (v : VmId) :
    Move rates sim [] { sim with pending := sim.pending.filter (· ≠ v) }
  | emptyQueue (sim : Simulation α π) : Move rates sim [] { sim with pending := .empty }
  | release {sim : Simulation α π} {v : VmId} {host : HostId} {pool : Pool α}
    (h : sim.pool.release v = some (host, pool)) :
    Move rates sim [sim.stamped (.vmReleased v host)] { sim with pool }
  | resize {sim : Simulation α π} {v : VmId} {mips : α} {pool : Pool α} (hr : rates mips)
    (h : sim.pool.updateVmMips v mips = .done pool) :
    Move rates sim [sim.stamped (.vmResized v mips)] { sim with pool }
  | decide (sim : Simulation α π) (policy : π) : Move rates sim [] { sim with policy }
  | start {sim : Simulation α π} {m : Migration α} {vm : Vm α} {pool : Pool α}
    (hv : sim.pool.vms.get? m.vm = some vm)
    (h : sim.pool.startMigration m.vm m.target = .done pool) :
    Move rates sim
      [sim.stamped (.migrationStarted { m with time := some sim.time }
        (vm.migrationDuration sim.config.migrationOverhead))]
      { sim with
        pool, started := sim.started + 1
        inFlight := (sim.takeOff m (vm.migrationDuration sim.config.migrationOverhead)).enqueue
          sim.inFlight }
  /-- A plan was rejected half-way, and what it did is undone. -/
  | undo {sim : Simulation α π} {plan : List (Migration α)} {between pool : Pool α}
    {rejection : PlanRejection}
    (hstart : sim.pool.startPlan plan = .ok (between, some rejection))
    (hrestore : Ledger.tryRestore ⟨some (.capture sim.pool sim.pool.vmIds)⟩ between
      (between.vmsAround (planHosts plan)) (planHosts plan).toList = .ok ⟨pool, none⟩) :
    Move rates sim [] { sim with pool }
  | arrive {sim : Simulation α π} {flight : InFlight α} {rest : List (InFlight α)}
    {source : HostId} {pool : Pool α} (hq : sim.inFlight = flight :: rest)
    (ht : sim.targetOf flight.vm = some flight.target)
    (h : sim.pool.finishMigration flight.vm = .done (source, pool)) :
    Move rates sim
      [(sim.atFinish flight rest).stamped (.migrationCompleted flight.vm source flight.target)]
      { sim.atFinish flight rest with pool, completed := sim.completed + 1 }
  | lapse {sim : Simulation α π} {flight : InFlight α} {rest : List (InFlight α)}
    (hq : sim.inFlight = flight :: rest) (ht : sim.targetOf flight.vm ≠ some flight.target) :
    Move rates sim [(sim.atFinish flight rest).stamped (.migrationCancelled flight.vm)]
      (sim.atFinish flight rest)
  | fail {sim : Simulation α π} {flight : InFlight α} {rest : List (InFlight α)}
    {reason : Refusal} (hq : sim.inFlight = flight :: rest)
    (ht : sim.targetOf flight.vm = some flight.target)
    (h : sim.pool.finishMigration flight.vm = .refused reason) :
    Move rates sim [(sim.atFinish flight rest).stamped (.migrationFailed flight.vm reason)]
      (sim.atFinish flight rest)
  | tick (sim : Simulation α π) (time : α) : Move rates sim [] { sim with time }
  | sample (sim : Simulation α π) (monitoring : Monitoring α) :
    Move rates sim [] { sim with monitoring, lastMonitoring := sim.time }
  | meter (sim : Simulation α π) : Move rates sim [] sim.meterPower

/-- Moves that are made one after the other, and all that they record. -/
inductive Moves (rates : α → Prop) :
    Simulation α π → List (LogEntry α) → Simulation α π → Prop where
  | refl (sim : Simulation α π) : Moves rates sim [] sim
  | tail {sim between sim' : Simulation α π} {log events : List (LogEntry α)}
    (run : Moves rates sim log between) (h : Move rates between events sim') :
    Moves rates sim (log ++ events) sim'

variable {rates : α → Prop}

namespace Moves

variable {sim between sim' : Simulation α π} {log events : List (LogEntry α)}

theorem single (h : Move rates sim events sim') : Moves rates sim events sim' := by
  have hone := Moves.tail (.refl sim) h
  exact hone

theorem trans (hab : Moves rates sim log between) (hbc : Moves rates between events sim') :
    Moves rates sim (log ++ events) sim' := by
  induction hbc with
  | refl =>
    rw [List.append_nil]
    exact hab
  | tail _ h ih =>
    rw [← List.append_assoc]
    exact .tail ih h

theorem cons (h : Move rates sim log between) (hrest : Moves rates between events sim') :
    Moves rates sim (log ++ events) sim' := (single h).trans hrest

theorem notes (sim : Simulation α π) {entries : List (LogEntry α)}
    (h : ∀ entry ∈ entries, entry.event.isNeutral = true) : Moves rates sim entries sim := by
  induction entries with
  | nil => exact .refl sim
  | cons entry rest ih =>
    exact cons (.note (h entry List.mem_cons_self)) (ih fun e he => h e (List.mem_cons_of_mem _ he))

/-- What holds of a simulation and its log at first, and is kept by each move, holds after all
moves. -/
theorem invariant {P : List (LogEntry α) → Simulation α π → Prop} {start : Simulation α π}
    (hstart : P [] start)
    (keeps : ∀ log events sim sim', P log sim → Move rates sim events sim' → P (log ++ events) sim')
    (h : Moves rates start log sim) : P log sim := by
  induction h with
  | refl => exact hstart
  | tail _ h ih => exact keeps _ _ _ _ ih h

end Moves

/-! ### Recorded actions -/

/-- What the action records are the events of moves from the simulation. If it gives a value, these
moves lead to the simulation that belongs to the value. -/
def Traces {β : Type} (rates : α → Prop) (sim : Simulation α π) (x : Logged α β)
    (state : β → Simulation α π) : Prop :=
  ∃ sim', Moves rates sim x.events sim' ∧ ∀ value, x.result = .ok value → state value = sim'

namespace Traces

variable {β γ : Type} {sim sim' : Simulation α π} {state : β → Simulation α π}
  {x : Logged α β}

theorem pure {value : β} (h : state value = sim) :
    Traces rates sim (Pure.pure value : Logged α β) state :=
  ⟨sim, .refl sim, fun _ hv => Except.ok.inj hv ▸ h⟩

theorem bind {f : β → Logged α γ} {last : γ → Simulation α π} (hx : Traces rates sim x state)
    (hf : ∀ value, x.result = .ok value → Traces rates (state value) (f value) last) :
    Traces rates sim (x >>= f) last := by
  obtain ⟨between, hmoves, hbetween⟩ := hx
  cases hr : x.result with
  | error e =>
    refine ⟨between, ?_, fun value hv => ?_⟩
    · rw [Logged.events_bind_of_error hr]
      exact hmoves
    · rw [Logged.result_bind, hr] at hv
      cases hv
  | ok value =>
    obtain ⟨after, hrest, hafter⟩ := hf value hr
    rw [hbetween value hr] at hrest
    refine ⟨after, ?_, fun y hy => hafter y ?_⟩
    · rw [Logged.events_bind_of_ok hr]
      exact hmoves.trans hrest
    · rw [Logged.result_bind, hr] at hy
      exact hy

/-- What comes first is checked and records nothing. -/
theorem check {checked : Checked γ} {f : γ → Logged α β}
    (hf : ∀ value, checked = .ok value → Traces rates sim (f value) state) :
    Traces rates sim ((liftM checked : Logged α γ) >>= f) state := by
  have hlift : Traces rates sim (liftM checked : Logged α γ) fun _ => sim :=
    ⟨sim, .refl sim, fun _ _ => rfl⟩
  exact hlift.bind hf

/-- A move that records nothing can be made before. -/
theorem after (h : Move rates sim [] sim') (hx : Traces rates sim' x state) :
    Traces rates sim x state := by
  obtain ⟨last, hmoves, hlast⟩ := hx
  exact ⟨last, .cons h hmoves, hlast⟩

theorem record {now : Simulation α π} {event : Event α} {rest : Unit → Logged α β}
    (h : Move rates sim [now.stamped event] sim') (hrest : Traces rates sim' (rest ()) state) :
    Traces rates sim (now.note event >>= rest) state := by
  have hnote : Traces rates sim (now.note event) fun _ => sim' :=
    ⟨sim', .single h, fun _ _ => rfl⟩
  exact hnote.bind fun _ _ => hrest

theorem note {now : Simulation α π} {event : Event α} {rest : Unit → Logged α β}
    (h : event.isNeutral = true) (hrest : Traces rates sim (rest ()) state) :
    Traces rates sim (now.note event >>= rest) state := record (.note h) hrest

theorem foldlM {act : Simulation α π → γ → Logged α (Simulation α π)}
    (h : ∀ sim item, Traces rates sim (act sim item) fun last => last) (sim : Simulation α π)
    (items : List γ) :
    Traces rates sim (items.foldlM act sim) fun last => last := by
  induction items generalizing sim with
  | nil => exact pure rfl
  | cons item rest ih =>
    rw [List.foldlM_cons]
    exact (h sim item).bind fun next _ => ih next

theorem fold {act : Simulation α π → γ → Logged α (Simulation α π)}
    (h : ∀ sim item, Traces rates sim (act sim item) fun last => last) (sim : Simulation α π)
    (items : List γ) :
    Traces rates sim (Logged.fold act sim items) fun last => last := by
  rw [Logged.fold_eq_foldlM]
  exact foldlM h sim items

theorem moves (h : Traces rates sim x state) {value : β} (hv : x.result = .ok value) :
    Moves rates sim x.events (state value) := by
  obtain ⟨last, hmoves, hlast⟩ := h
  exact hlast value hv ▸ hmoves

end Traces

end Simulation

/-! ### The pool -/

/-- The operation asks for an admitted rate only, and removes no VM. -/
def Pool.Op.AsksFor (rates : α → Prop) : Pool.Op α → Prop
  | .addVm spec => rates spec.mips
  | .updateVmMips _ mips => rates mips
  | .removeVm _ => False
  | _ => True

theorem Pool.Op.Rearranges.asksFor {op : Pool.Op α} (h : op.Rearranges) (rates : α → Prop) :
    op.AsksFor rates := by
  cases op with
  | addVm spec => exact h.elim
  | updateVmMips v mips => exact h.elim
  | removeVm v => exact h.elim
  | _ => trivial

/-- All that an operation does to the records of VMs, beside placing them: it adds a new VM, or sets
the rate of a known one. -/
theorem Pool.Change.vms_cases [Scalar α] {rates : α → Prop} {op : Pool.Op α} {pool pool' : Pool α}
    (hop : op.AsksFor rates) (h : Pool.Change op pool pool') :
    pool.SameVms pool'
    ∨ (∃ spec, rates spec.mips
      ∧ pool'.vms = pool.vms.insert pool.nextVm (Vm.create pool.nextVm spec))
    ∨ ∃ v vm mips, rates mips ∧ pool.vms.get? v = some vm
      ∧ pool'.vms = pool.vms.insert v { vm with mips } := by
  by_cases hrearranges : op.Rearranges
  · exact .inl (h.sameVms hrearranges)
  · cases h with
    | addHost h =>
      obtain ⟨-, -, rfl⟩ := (addHost_eq_ok_iff _ _ _ _).mp h
      exact .inl (.refl pool)
    | addVm h =>
      obtain ⟨-, -, rfl⟩ := (addVm_eq_ok_iff _ _ _ _).mp h
      exact .inr (.inl ⟨_, hop, rfl⟩)
    | removeVm h => exact hop.elim
    | @updateVmMips _ _ v mips h =>
      obtain ⟨vm, hv, -, hcases⟩ := (updateVmMips_eq_done_iff _ _ _ _).mp h
      refine .inr (.inr ⟨v, vm, mips, hop, hv, ?_⟩)
      rcases hcases with ⟨-, rfl⟩ | ⟨g, host, host', -, -, -, rfl⟩
      · exact vms_withVm _ _ _
      · rw [vms_withVm, vms_withHost]
    | allocate | release | startMigration | finishMigration | cancelMigration =>
      exact absurd trivial hrearranges

namespace Pool

variable [Scalar α] {pool between pool' : Pool α} {rates : α → Prop}

/-- The other pool has all hosts and VMs of this one. Hosts are specified alike, and VMs ask for the
same memory, bandwidth and storage. -/
structure Extends (pool pool' : Pool α) : Prop where
  hosts : ∀ h host, pool.hosts.get? h = some host →
    ∃ host', pool'.hosts.get? h = some host' ∧ host'.toHostSpec = host.toHostSpec
  vms : ∀ v vm, pool.vms.get? v = some vm →
    ∃ vm', pool'.vms.get? v = some vm' ∧ ∀ k, vm'.demand.stock k = vm.demand.stock k

theorem Extends.refl (pool : Pool α) : pool.Extends pool where
  hosts _ host hh := ⟨host, hh, rfl⟩
  vms _ vm hv := ⟨vm, hv, fun _ => rfl⟩

theorem Extends.trans (hab : pool.Extends between) (hbc : between.Extends pool') :
    pool.Extends pool' where
  hosts h host hh := by
    obtain ⟨middle, hmiddle, hspec⟩ := hab.hosts h host hh
    obtain ⟨host', hh', hspec'⟩ := hbc.hosts h middle hmiddle
    exact ⟨host', hh', hspec'.trans hspec⟩
  vms v vm hv := by
    obtain ⟨middle, hmiddle, hstock⟩ := hab.vms v vm hv
    obtain ⟨vm', hv', hstock'⟩ := hbc.vms v middle hmiddle
    exact ⟨vm', hv', fun k => (hstock' k).trans (hstock k)⟩

theorem Change.hosts_kept {op : Op α} (own : pool.Ownership) (h : Change op pool pool')
    {g : HostId} {host : Host α} (hg : pool.hosts.get? g = some host) :
    ∃ host', pool'.hosts.get? g = some host' ∧ host'.toHostSpec = host.toHostSpec := by
  have hsame : pool.SameHosts pool' →
      ∃ host', pool'.hosts.get? g = some host' ∧ host'.toHostSpec = host.toHostSpec := by
    intro hs
    obtain ⟨host', hg', -, hspec⟩ := hs.symm.get? hg
    exact ⟨host', hg', hspec.symm⟩
  by_cases hrearranges : op.Rearranges
  · exact hsame (h.sameHosts hrearranges)
  · cases h with
    | addHost h =>
      obtain ⟨-, -, rfl⟩ := (addHost_eq_ok_iff _ _ _ _).mp h
      -- The new number is not in use.
      refine ⟨host, ?_, rfl⟩
      rw [Table.get?_insert, if_neg (Nat.ne_of_lt (own.host_id g host hg).2)]
      exact hg
    | addVm h =>
      obtain ⟨-, -, rfl⟩ := (addVm_eq_ok_iff _ _ _ _).mp h
      exact ⟨host, hg, rfl⟩
    | removeVm h =>
      obtain ⟨-, -, rfl⟩ := (removeVm_eq_ok_iff _ _ _ _).mp h
      exact ⟨host, hg, rfl⟩
    | updateVmMips h => exact hsame (updateVmMips_sameHosts h)
    | allocate | release | startMigration | finishMigration | cancelMigration =>
      exact absurd trivial hrearranges

theorem Change.extends_pool {op : Op α} (own : pool.Ownership) (hop : op.AsksFor rates)
    (h : Change op pool pool') : pool.Extends pool' where
  hosts _ _ hg := h.hosts_kept own hg
  vms v vm hv := by
    rcases h.vms_cases hop with hsame | ⟨spec, -, hvms⟩ | ⟨w, record, mips, -, hw, hvms⟩
    · obtain ⟨vm', hv', -, hspec⟩ := hsame.symm.get? hv
      refine ⟨vm', hv', fun k => ?_⟩
      rw [Vm.demand, Vm.demand, Vm.totalMips, Vm.totalMips, hspec]
    · refine ⟨vm, ?_, fun _ => rfl⟩
      rw [hvms, Table.get?_insert, if_neg (Nat.ne_of_lt (own.vm_id v vm hv).2)]
      exact hv
    · rw [hvms, Table.get?_insert]
      split
      · rename_i heq
        rw [heq, hw, Option.some.injEq] at hv
        subst hv
        refine ⟨_, rfl, fun k => ?_⟩
        cases k <;> rfl
      · exact ⟨vm, hv, fun _ => rfl⟩

theorem Steps.extends_pool (own : pool.Ownership) (h : Steps (Op.AsksFor rates) pool pool') :
    pool.Extends pool' := by
  have hboth : pool'.Ownership ∧ pool.Extends pool' := by
    refine Steps.invariant (P := fun last => last.Ownership ∧ pool.Extends last)
      (fun _ => trivial) (fun _ => trivial) ?_ ⟨own, .refl pool⟩ h
    rintro op between last hop ⟨own, hextends⟩ hc
    exact ⟨own.change hc, hextends.trans (hc.extends_pool own hop)⟩
  exact hboth.2

end Pool

namespace Simulation

open Pool

variable {π : Type} [Scalar α] [AllocationPolicy α π] {rates : α → Prop}
  {sim sim' : Simulation α π} {log events : List (LogEntry α)}

theorem allocate_of_place {policy : π} {pool pool' : Pool α} {v : VmId} {host : HostId}
    (h : AllocationPolicy.place policy pool v = .done (host, pool')) :
    pool.allocate v host = .done pool' := by
  rw [AllocationPolicy.place] at h
  split at h
  · cases h
  · simp only [Outcome.bind_eq_done_iff] at h
    obtain ⟨selected, -, host', -, pool'', hallocate, hpair⟩ := h
    cases hpair
    cases ha : pool.allocate v host with
    | done between =>
      rw [ha, Outcome.mapRefusal, Outcome.done.injEq] at hallocate
      rw [hallocate]
    | refused reason =>
      rw [ha] at hallocate
      cases hallocate
    | fault e =>
      rw [ha] at hallocate
      cases hallocate

theorem Move.pool_steps (h : Move rates sim events sim') :
    Steps (Op.AsksFor rates) sim.pool sim'.pool := by
  cases h with
  | addHost h => exact .of_change (.addHost h) trivial
  | addVm hr h => exact .of_change (.addVm h) hr
  | place h => exact .of_change (.allocate (allocate_of_place h)) trivial
  | release h => exact .of_change (.release h) trivial
  | resize hr h => exact .of_change (.updateVmMips h) hr
  | start hv h => exact .of_change (.startMigration h) trivial
  | undo hstart hrestore =>
    exact ((startPlan_steps hstart).trans (Ledger.tryRestore_steps hrestore)).mono
      fun _ hop => hop.asksFor rates
  | arrive hq ht h => exact .of_change (.finishMigration h) trivial
  | note | wait | leaveQueue | emptyQueue | decide | lapse | fail | tick | sample | meter =>
    exact .refl _

theorem Moves.pool_steps (h : Moves rates sim log sim') :
    Steps (Op.AsksFor rates) sim.pool sim'.pool :=
  h.invariant (P := fun _ last => Steps (Op.AsksFor rates) sim.pool last.pool) (.refl _)
    fun _ _ _ _ hsteps hmove => hsteps.trans hmove.pool_steps

end Simulation

end Datacenter
