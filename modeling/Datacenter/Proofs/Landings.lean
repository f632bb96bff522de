import Datacenter.Proofs.Commands
import Datacenter.Proofs.Itineraries
import Datacenter.Proofs.PlanAtomicity

/-!
# Landings

A started migration is in flight until its time has come. What is in flight names a VM and a host,
and not the migration: a VM lands on its target as soon as one of the migrations to this host comes
up. As long as no migration of the VM to the host was given up, there is only one of them, and it is
the one that the VM is in.

Main statements: `Move.traffic`, `Tracked.move`, `Tracked.moves` and `Tracked.departure_of_first`.
-/

namespace Datacenter

variable {α : Type} [Scalar α]

/-! ### The queue -/

theorem InFlight.enqueue_eq (f : InFlight α) (queue : List (InFlight α)) :
    ∃ earlier later, queue = earlier ++ later ∧ f.enqueue queue = earlier ++ f :: later := by
  induction queue with
  | nil => exact ⟨[], [], rfl, rfl⟩
  | cons x xs ih =>
    rw [enqueue]
    split
    · exact ⟨[], x :: xs, rfl, rfl⟩
    · obtain ⟨earlier, later, rfl, heq⟩ := ih
      exact ⟨x :: earlier, later, rfl, congrArg (List.cons x) heq⟩

theorem InFlight.mem_enqueue_iff (f x : InFlight α) (queue : List (InFlight α)) :
    x ∈ f.enqueue queue ↔ x = f ∨ x ∈ queue := by
  obtain ⟨earlier, later, rfl, heq⟩ := f.enqueue_eq queue
  rw [heq]
  simp only [List.mem_append, List.mem_cons]
  exact or_left_comm

/-- A relation that follows the order of landing holds from the front to the back of a queue. -/
theorem InFlight.pairwise_enqueue_of {R : InFlight α → InFlight α → Prop} {f : InFlight α}
    {queue : List (InFlight α)} (htrans : ∀ {a b c}, R a b → R b c → R a c)
    (hbefore : ∀ x ∈ queue, f.landsBefore x = true → R f x)
    (hafter : ∀ x ∈ queue, ¬f.landsBefore x = true → R x f) (h : queue.Pairwise R) :
    (f.enqueue queue).Pairwise R := by
  induction queue with
  | nil => exact List.pairwise_singleton _ _
  | cons x rest ih =>
    obtain ⟨hx, hrest⟩ := List.pairwise_cons.mp h
    obtain ⟨hbeforex, hbefore⟩ := List.forall_mem_cons.mp hbefore
    obtain ⟨hafterx, hafter⟩ := List.forall_mem_cons.mp hafter
    rw [enqueue]
    split
    · rename_i hf
      have hfx := hbeforex hf
      refine List.pairwise_cons.mpr ⟨?_, h⟩
      exact List.forall_mem_cons.mpr ⟨hfx, fun y hy => htrans hfx (hx y hy)⟩
    · rename_i hf
      refine List.pairwise_cons.mpr ⟨fun y hy => ?_, ih hbefore hafter hrest⟩
      rcases (mem_enqueue_iff _ _ _).mp hy with rfl | hy
      · exact hafterx hf
      · exact hx y hy

/-! ### What stays of VMs -/

namespace Pool

variable {pool pool' : Pool α}

/-- All VMs stay, and their migrations take as long as before. -/
def KeepsVms (pool pool' : Pool α) : Prop :=
  ∀ v vm, pool.vms.get? v = some vm → ∃ vm', pool'.vms.get? v = some vm'
    ∧ ∀ overhead, vm'.migrationDuration overhead = vm.migrationDuration overhead

theorem Steps.keepsVms {rates : α → Prop} (own : pool.Ownership)
    (h : Steps (Op.AsksFor rates) pool pool') : pool.KeepsVms pool' := by
  intro v vm hv
  obtain ⟨vm', hv', hstock⟩ := (h.extends_pool own).vms v vm hv
  have hram : vm'.ram = vm.ram := UInt64.toNat_inj.mp (hstock .memory)
  have hbandwidth : vm'.bandwidth = vm.bandwidth := UInt64.toNat_inj.mp (hstock .bandwidth)
  refine ⟨vm', hv', fun overhead => ?_⟩
  rw [Vm.migrationDuration, Vm.migrationDuration, hram, hbandwidth]

theorem Ownership.finishMigration_ne_refused (own : pool.Ownership) {v : VmId} {t : HostId}
    (ht : (pool.placement v).bind (·.target) = some t) (reason : Refusal) :
    pool.finishMigration v ≠ .refused reason := by
  obtain ⟨p, hp, hpt⟩ := Option.bind_eq_some_iff.mp ht
  obtain ⟨vm, hv, hh, hm⟩ := (placement_eq_some_iff _ _ _).mp hp
  rw [hpt] at hm
  cases hhost : vm.host with
  | none =>
    rw [own.migrationTarget_eq_none hv hhost] at hm
    cases hm
  | some s =>
    obtain ⟨target, htarget⟩ := own.exists_target hv hm
    have hincoming := own.get?_incoming hv htarget hm
    simp only [Pool.finishMigration, hv, hhost, hm, htarget, Host.land, hincoming]
    cases (target.cancel v).residentTotal.add vm.demand with
    | ok total =>
      intro h
      cases h
    | error e =>
      intro h
      cases h

end Pool

namespace Simulation

variable {π : Type} {sim sim' : Simulation α π} {log events : List (LogEntry α)}

omit [Scalar α] in
theorem targetOf_eq (sim : Simulation α π) (v : VmId) :
    sim.targetOf v = (sim.pool.placement v).bind (·.target) := by
  rw [targetOf, Pool.placement]
  cases sim.pool.vms.get? v with
  | none => rfl
  | some vm => rfl

/-! ### What is in flight -/

/-- The migrations of a VM to a host in a queue. -/
def flightsTo (v : VmId) (t : HostId) (queue : List (InFlight α)) : List (InFlight α) :=
  queue.filter fun f => f.vm = v ∧ f.target = t

omit [Scalar α] in
theorem flightsTo_cons_self (f : InFlight α) (queue : List (InFlight α)) :
    flightsTo f.vm f.target (f :: queue) = f :: flightsTo f.vm f.target queue := by
  simp [flightsTo]

omit [Scalar α] in
theorem flightsTo_cons_of_ne {v : VmId} {t : HostId} {f : InFlight α}
    (h : ¬(f.vm = v ∧ f.target = t)) (queue : List (InFlight α)) :
    flightsTo v t (f :: queue) = flightsTo v t queue := by
  simp [flightsTo, h]

theorem flightsTo_enqueue_self {f : InFlight α} {queue : List (InFlight α)}
    (h : flightsTo f.vm f.target queue = []) :
    flightsTo f.vm f.target (f.enqueue queue) = [f] := by
  obtain ⟨earlier, later, rfl, heq⟩ := f.enqueue_eq queue
  simp only [flightsTo, List.filter_append, List.append_eq_nil_iff] at h
  rw [heq, flightsTo, List.filter_append, h.1, List.nil_append]
  have hself := flightsTo_cons_self f later
  rw [flightsTo, flightsTo, h.2] at hself
  exact hself

theorem flightsTo_enqueue_of_ne {v : VmId} {t : HostId} {f : InFlight α}
    (h : ¬(f.vm = v ∧ f.target = t)) (queue : List (InFlight α)) :
    flightsTo v t (f.enqueue queue) = flightsTo v t queue := by
  obtain ⟨earlier, later, rfl, heq⟩ := f.enqueue_eq queue
  have hcons := flightsTo_cons_of_ne h later
  simp only [flightsTo] at hcons
  simp only [heq, flightsTo, List.filter_append, hcons]

/-! ### Logs and queues -/

/-- The log of a simulation tells where VMs move, and from which departures the migrations in flight
come. Of the migrations of a VM to a host none but the current one is in flight, unless one was
given up. -/
structure Tracked (log : List (LogEntry α)) (sim : Simulation α π) : Prop where
  reachable : sim.pool.Reachable
  target : ∀ v, sim.targetOf v = (itinerary v log).current.map (·.target)
  known : ∀ f ∈ sim.inFlight, ∃ d ∈ (itinerary f.vm log).made,
    d.target = f.target ∧ d.finish = f.finish
  single : ∀ v t, (itinerary v log).NoneAbandoned t →
    (flightsTo v t sim.inFlight).map (·.finish)
      = (((itinerary v log).current.filter (·.target = t)).map Departure.finish).toList
  lasting : ∀ v, ∀ d ∈ (itinerary v log).made, ∃ vm, sim.pool.vms.get? v = some vm
    ∧ vm.migrationDuration sim.config.migrationOverhead = d.duration

theorem Tracked.create (config : Config α) (policy : π) (id : Nat) :
    Tracked [] (create config policy id) where
  reachable := .refl _
  target _ := rfl
  known _ hf := nomatch hf
  single _ _ _ := rfl
  lasting _ _ hd := nomatch hd

variable [AllocationPolicy α π] {rates : α → Prop}

theorem Move.config_eq (h : Move rates sim events sim') : sim'.config = sim.config := by
  cases h with
  | _ => rfl

/-! ### What moves do to migrations -/

/-- What a move does to the targets of VMs and to the migrations in flight, and what itineraries
tell of it. -/
inductive Traffic (sim : Simulation α π) (events : List (LogEntry α)) (sim' : Simulation α π) :
    Prop where
  | still (hlog : ∀ log v, itinerary v (log ++ events) = itinerary v log)
    (htarget : ∀ v, sim'.targetOf v = sim.targetOf v) (hqueue : sim'.inFlight = sim.inFlight)
  /-- A VM starts to move, and its migration is put in flight. -/
  | depart {f : InFlight α} {d : Departure α} (hd : d.target = f.target ∧ d.finish = f.finish)
    (hlog : ∀ log v, itinerary v (log ++ events)
      = if f.vm = v then
          { itinerary v log with made := d :: (itinerary v log).made, current := some d }
        else itinerary v log)
    (hbefore : sim.targetOf f.vm = none)
    (hafter : ∀ v, sim'.targetOf v = if f.vm = v then some d.target else sim.targetOf v)
    (hqueue : sim'.inFlight = f.enqueue sim.inFlight)
    (hvm : ∃ vm, sim'.pool.vms.get? f.vm = some vm
      ∧ vm.migrationDuration sim'.config.migrationOverhead = d.duration)
  /-- A VM is released, and leaves its migration in flight, if it has one. -/
  | leave {w : VmId}
    (hlog : ∀ log v, itinerary v (log ++ events)
      = if w = v then
          { itinerary v log with
            current := none
            abandoned := (itinerary v log).current.toList ++ (itinerary v log).abandoned }
        else itinerary v log)
    (hafter : ∀ v, sim'.targetOf v = if w = v then none else sim.targetOf v)
    (hqueue : sim'.inFlight = sim.inFlight)
  /-- The first migration in flight comes up and finds its VM moving to its host. -/
  | arrive {f : InFlight α} {rest : List (InFlight α)} (hq : sim.inFlight = f :: rest)
    (hbefore : sim.targetOf f.vm = some f.target)
    (hlog : ∀ log v, itinerary v (log ++ events)
      = if f.vm = v then { itinerary v log with current := none } else itinerary v log)
    (hafter : ∀ v, sim'.targetOf v = if f.vm = v then none else sim.targetOf v)
    (hqueue : sim'.inFlight = rest)
  /-- The first migration in flight comes up and does not find its VM moving to its host. -/
  | lapse {f : InFlight α} {rest : List (InFlight α)} (hq : sim.inFlight = f :: rest)
    (hbefore : sim.targetOf f.vm ≠ some f.target)
    (hlog : ∀ log v, itinerary v (log ++ events) = itinerary v log)
    (htarget : ∀ v, sim'.targetOf v = sim.targetOf v) (hqueue : sim'.inFlight = rest)

theorem Move.traffic (own : sim.pool.Ownership) (h : Move rates sim events sim') :
    Traffic sim events sim' := by
  have hsilent : ∀ log v, itinerary v (log ++ ([] : List (LogEntry α))) = itinerary v log := by
    intro log v
    rw [List.append_nil]
  have hmove := h
  cases h with
  | note hneutral =>
    refine .still (fun log v => ?_) (fun _ => rfl) rfl
    rw [itinerary_record, Itinerary.next_of_isNeutral hneutral]
  | addHost hadd =>
    obtain ⟨-, -, rfl⟩ := (Pool.addHost_eq_ok_iff _ _ _ _).mp hadd
    exact .still (fun log v => itinerary_record v log _) (fun _ => rfl) rfl
  | addVm hr hadd =>
    obtain ⟨-, -, rfl⟩ := (Pool.addVm_eq_ok_iff _ _ _ _).mp hadd
    refine .still hsilent (fun v => ?_) rfl
    simp only [targetOf, Table.get?_insert]
    split
    · rename_i hv
      -- The new number is not in use.
      cases hget : sim.pool.vms.get? v with
      | none => rfl
      | some vm => exact absurd hv (Nat.ne_of_lt (own.vm_id v vm hget).2)
    · rfl
  | place hplace =>
    obtain ⟨hbefore, hafter⟩ := Pool.allocate_placement own (allocate_of_place hplace)
    refine .still (fun log v => itinerary_record v log _) (fun v => ?_) rfl
    rw [targetOf_eq, targetOf_eq, hafter]
    split
    · rename_i hv
      rw [hv, hbefore]
      rfl
    · rfl
  | resize hr hresize =>
    refine .still (fun log v => itinerary_record v log _) (fun v => ?_) rfl
    rw [targetOf_eq, targetOf_eq, Pool.updateVmMips_placement hresize]
  | undo hstart hrestore =>
    refine .still hsilent (fun v => ?_) rfl
    rw [targetOf_eq, targetOf_eq, (Pool.undo_arranged own hstart hrestore).placement]
  | wait | leaveQueue | emptyQueue | decide | tick | sample | meter =>
    exact .still hsilent (fun _ => rfl) rfl
  | @release w host pool hrelease =>
    obtain ⟨-, hafter⟩ := Pool.release_placement hrelease
    refine .leave (w := w) (fun log v => itinerary_record v log _) (fun v => ?_) rfl
    rw [targetOf_eq, targetOf_eq, hafter]
    simp only [eq_comm]
    split
    · rfl
    · rfl
  | @start m vm pool hv hstart =>
    obtain ⟨s, hbefore, -, hafter⟩ := Pool.startMigration_placement hstart
    let duration := vm.migrationDuration sim.config.migrationOverhead
    refine .depart (f := sim.takeOff m duration) (d := ⟨sim.time, duration, m.target⟩) ⟨rfl, rfl⟩
      (fun log v => itinerary_record v log _) ?_ (fun v => ?_) rfl ?_
    · rw [targetOf_eq]
      exact congrArg (fun p => Option.bind p (·.target)) hbefore
    · rw [targetOf_eq, targetOf_eq, hafter]
      by_cases hvm : m.vm = v
      · rw [if_pos hvm.symm]
        exact (if_pos hvm).symm
      · rw [if_neg (Ne.symm hvm)]
        exact (if_neg hvm).symm
    · obtain ⟨vm', hv', hsame⟩ := hmove.pool_steps.keepsVms own m.vm vm hv
      exact ⟨vm', hv', hsame _⟩
  | arrive hq ht hfinish =>
    obtain ⟨t, -, hafter⟩ := Pool.finishMigration_placement hfinish
    refine .arrive hq ht (fun log v => itinerary_record v log _) (fun v => ?_) rfl
    rw [targetOf_eq, targetOf_eq, hafter]
    simp only [eq_comm]
    split
    · rfl
    · rfl
  | lapse hq ht => exact .lapse hq ht (fun log v => itinerary_record v log _) (fun _ => rfl) rfl
  | fail hq ht hrefused =>
    rw [targetOf_eq] at ht
    exact absurd hrefused (own.finishMigration_ne_refused ht _)

namespace Tracked

theorem next_reachable (h : Tracked log sim) (hm : Move rates sim events sim') :
    sim'.pool.Reachable := hm.pool_steps.reachable h.reachable

theorem next_lasting (h : Tracked log sim) (hm : Move rates sim events sim') {v : VmId}
    {d : Departure α} (hd : d ∈ (itinerary v log).made) :
    ∃ vm, sim'.pool.vms.get? v = some vm
      ∧ vm.migrationDuration sim'.config.migrationOverhead = d.duration := by
  obtain ⟨vm, hv, hduration⟩ := h.lasting v d hd
  obtain ⟨vm', hv', hsame⟩ := hm.pool_steps.keepsVms h.reachable.ownership v vm hv
  refine ⟨vm', hv', ?_⟩
  rw [hm.config_eq, hsame, hduration]

/-- A move that starts no migration. What it does to the current ones is left to show. -/
theorem next (h : Tracked log sim) (hm : Move rates sim events sim')
    (hmade : ∀ v, (itinerary v (log ++ events)).made = (itinerary v log).made)
    (hqueue : ∀ f ∈ sim'.inFlight, f ∈ sim.inFlight)
    (htarget : ∀ v, sim'.targetOf v = (itinerary v (log ++ events)).current.map (·.target))
    (hsingle : ∀ v t, (itinerary v (log ++ events)).NoneAbandoned t →
      (flightsTo v t sim'.inFlight).map (·.finish)
        = (((itinerary v (log ++ events)).current.filter (·.target = t)).map
          Departure.finish).toList) :
    Tracked (log ++ events) sim' where
  reachable := h.next_reachable hm
  target := htarget
  known f hf := by
    rw [hmade]
    exact h.known f (hqueue f hf)
  single := hsingle
  lasting v d hd := h.next_lasting hm (hmade v ▸ hd)

theorem still (h : Tracked log sim) (hm : Move rates sim events sim')
    (hlog : ∀ v, itinerary v (log ++ events) = itinerary v log)
    (htarget : ∀ v, sim'.targetOf v = sim.targetOf v) (hqueue : sim'.inFlight = sim.inFlight) :
    Tracked (log ++ events) sim' := by
  refine h.next hm (fun v => ?_) (fun f hf => hqueue ▸ hf) (fun v => ?_) fun v t hnone => ?_
  · rw [hlog]
  · rw [htarget, hlog, h.target]
  · rw [hlog] at hnone ⊢
    rw [hqueue]
    exact h.single v t hnone

omit [AllocationPolicy α π] in
theorem flightsTo_eq_nil (h : Tracked log sim) {v : VmId} {t : HostId}
    (ht : sim.targetOf v ≠ some t) (hnone : (itinerary v log).NoneAbandoned t) :
    flightsTo v t sim.inFlight = [] := by
  have hsingle := h.single v t hnone
  rw [h.target] at ht
  cases hc : (itinerary v log).current with
  | none =>
    rw [hc] at hsingle
    exact List.map_eq_nil_iff.mp hsingle
  | some d =>
    rw [hc, Option.map_some, ne_eq, Option.some.injEq] at ht
    rw [hc, Option.filter_some_neg (by simpa using ht)] at hsingle
    exact List.map_eq_nil_iff.mp hsingle

omit [AllocationPolicy α π] in
/-- A migration that comes up for the host that its VM moves to is the one that the VM is in, and
the only one to this host, unless one was given up. -/
theorem first_of_current (h : Tracked log sim) {f : InFlight α} {rest : List (InFlight α)}
    (hq : sim.inFlight = f :: rest) {d : Departure α}
    (hd : (itinerary f.vm log).current = some d) (htarget : d.target = f.target)
    (hnone : (itinerary f.vm log).NoneAbandoned f.target) :
    f.finish = d.finish ∧ flightsTo f.vm f.target rest = [] := by
  have hsingle := h.single f.vm f.target hnone
  rw [hq, flightsTo_cons_self, hd, Option.filter_some_pos (by simpa using htarget), List.map_cons,
    Option.map_some, Option.toList_some, List.cons.injEq] at hsingle
  exact ⟨hsingle.1, List.map_eq_nil_iff.mp hsingle.2⟩

omit [AllocationPolicy α π] in
theorem departure_of_first (h : Tracked log sim) {f : InFlight α} {rest : List (InFlight α)}
    (hq : sim.inFlight = f :: rest) {current : Departure α}
    (hcurrent : (itinerary f.vm log).current = some current)
    (htarget : current.target = f.target) :
    ∃ d ∈ (itinerary f.vm log).made, d.target = f.target ∧ d.finish = f.finish
      ∧ ((itinerary f.vm log).NoneAbandoned f.target → current = d) := by
  by_cases hnone : (itinerary f.vm log).NoneAbandoned f.target
  · have hfinish := (h.first_of_current hq hcurrent htarget hnone).1
    have hmade := itinerary_current_made _ _ _ hcurrent
    exact ⟨current, hmade, htarget, hfinish.symm, fun _ => rfl⟩
  · obtain ⟨d, hmade, hsame, hfinish⟩ := h.known f (hq ▸ List.mem_cons_self)
    exact ⟨d, hmade, hsame, hfinish, fun h => absurd h hnone⟩

theorem depart (h : Tracked log sim) (hm : Move rates sim events sim') {f : InFlight α}
    {d : Departure α} (hd : d.target = f.target ∧ d.finish = f.finish)
    (hlog : ∀ v, itinerary v (log ++ events)
      = if f.vm = v then
          { itinerary v log with made := d :: (itinerary v log).made, current := some d }
        else itinerary v log)
    (hbefore : sim.targetOf f.vm = none)
    (hafter : ∀ v, sim'.targetOf v = if f.vm = v then some d.target else sim.targetOf v)
    (hqueue : sim'.inFlight = f.enqueue sim.inFlight)
    (hvm : ∃ vm, sim'.pool.vms.get? f.vm = some vm
      ∧ vm.migrationDuration sim'.config.migrationOverhead = d.duration) :
    Tracked (log ++ events) sim' := by
  refine ⟨h.next_reachable hm, fun v => ?_, fun x hx => ?_, fun v t hnone => ?_, fun v x hx => ?_⟩
  · rw [hafter, hlog]
    split
    · rfl
    · exact h.target v
  · rw [hqueue, InFlight.mem_enqueue_iff] at hx
    rcases hx with rfl | hx
    · refine ⟨d, ?_, hd⟩
      rw [hlog, if_pos rfl]
      exact List.mem_cons_self
    · obtain ⟨departure, hmade, hsame⟩ := h.known x hx
      refine ⟨departure, ?_, hsame⟩
      rw [hlog]
      split
      · exact List.mem_cons_of_mem _ hmade
      · exact hmade
  · have hnone' : (itinerary v log).NoneAbandoned t := by
      rw [hlog] at hnone
      split at hnone
      · exact hnone
      · exact hnone
    rw [hlog, hqueue]
    by_cases hv : f.vm = v
    · subst hv
      -- The VM has not moved before, so nothing else of it is in flight.
      have hempty : ∀ g, (itinerary f.vm log).NoneAbandoned g →
          flightsTo f.vm g sim.inFlight = [] := fun g hg => by
        refine h.flightsTo_eq_nil ?_ hg
        rw [hbefore]
        exact Option.some_ne_none g |>.symm
      rw [if_pos rfl]
      by_cases ht : f.target = t
      · subst ht
        rw [flightsTo_enqueue_self (hempty _ hnone'), Option.filter_some_pos (by simpa using hd.1),
          Option.map_some, hd.2]
        rfl
      · rw [flightsTo_enqueue_of_ne (fun h => ht h.2), hempty t hnone']
        simp [hd.1, ht]
    · rw [if_neg hv, flightsTo_enqueue_of_ne fun h => hv h.1]
      exact h.single v t hnone'
  · rw [hlog] at hx
    split at hx
    · rename_i hv
      subst hv
      rcases List.mem_cons.mp hx with rfl | hx
      · exact hvm
      · exact h.next_lasting hm hx
    · exact h.next_lasting hm hx

theorem leave (h : Tracked log sim) (hm : Move rates sim events sim') {w : VmId}
    (hlog : ∀ v, itinerary v (log ++ events)
      = if w = v then
          { itinerary v log with
            current := none
            abandoned := (itinerary v log).current.toList ++ (itinerary v log).abandoned }
        else itinerary v log)
    (hafter : ∀ v, sim'.targetOf v = if w = v then none else sim.targetOf v)
    (hqueue : sim'.inFlight = sim.inFlight) : Tracked (log ++ events) sim' := by
  refine h.next hm (fun v => ?_) (fun f hf => hqueue ▸ hf) (fun v => ?_) fun v t hnone => ?_
  · rw [hlog]
    split
    · rfl
    · rfl
  · rw [hafter, hlog]
    split
    · rfl
    · exact h.target v
  · rw [hlog] at hnone ⊢
    rw [hqueue]
    split at hnone
    · rename_i hw
      rw [if_pos hw, h.flightsTo_eq_nil]
      · rfl
      · -- The migration that the VM was in is given up now.
        intro ht
        rw [h.target, Option.map_eq_some_iff] at ht
        obtain ⟨d, hd, htarget⟩ := ht
        refine hnone d (List.mem_append_left _ ?_) htarget
        rw [hd]
        exact List.mem_singleton_self d
      · exact fun d hd => hnone d (List.mem_append_right _ hd)
    · rename_i hw
      rw [if_neg hw]
      exact h.single v t hnone

theorem arrive (h : Tracked log sim) (hm : Move rates sim events sim') {f : InFlight α}
    {rest : List (InFlight α)} (hq : sim.inFlight = f :: rest)
    (hbefore : sim.targetOf f.vm = some f.target)
    (hlog : ∀ v, itinerary v (log ++ events)
      = if f.vm = v then { itinerary v log with current := none } else itinerary v log)
    (hafter : ∀ v, sim'.targetOf v = if f.vm = v then none else sim.targetOf v)
    (hqueue : sim'.inFlight = rest) : Tracked (log ++ events) sim' := by
  have hsub : ∀ x ∈ sim'.inFlight, x ∈ sim.inFlight := by
    rw [hqueue, hq]
    exact fun x hx => List.mem_cons_of_mem f hx
  refine h.next hm (fun v => ?_) hsub (fun v => ?_) fun v t hnone => ?_
  · rw [hlog]
    split
    · rfl
    · rfl
  · rw [hafter, hlog]
    split
    · rfl
    · exact h.target v
  · replace hnone : (itinerary v log).NoneAbandoned t := by
      rw [hlog] at hnone
      split at hnone
      · exact hnone
      · exact hnone
    rw [hlog, hqueue]
    by_cases hv : f.vm = v
    · subst hv
      rw [if_pos rfl]
      by_cases ht : f.target = t
      · subst ht
        -- What was in flight is the migration that comes up, and nothing else.
        rw [h.target, Option.map_eq_some_iff] at hbefore
        obtain ⟨d, hd, htarget⟩ := hbefore
        rw [(h.first_of_current hq hd htarget hnone).2]
        rfl
      · have hother : sim.targetOf f.vm ≠ some t := by
          rw [hbefore, ne_eq, Option.some.injEq]
          exact ht
        have hempty := h.flightsTo_eq_nil hother hnone
        rw [hq, flightsTo_cons_of_ne fun h => ht h.2] at hempty
        rw [hempty]
        rfl
    · rw [if_neg hv, ← flightsTo_cons_of_ne (fun h => hv h.1), ← hq]
      exact h.single v t hnone

theorem lapse (h : Tracked log sim) (hm : Move rates sim events sim') {f : InFlight α}
    {rest : List (InFlight α)} (hq : sim.inFlight = f :: rest)
    (hbefore : sim.targetOf f.vm ≠ some f.target)
    (hlog : ∀ v, itinerary v (log ++ events) = itinerary v log)
    (htarget : ∀ v, sim'.targetOf v = sim.targetOf v) (hqueue : sim'.inFlight = rest) :
    Tracked (log ++ events) sim' := by
  have hsub : ∀ x ∈ sim'.inFlight, x ∈ sim.inFlight := by
    rw [hqueue, hq]
    exact fun x hx => List.mem_cons_of_mem f hx
  refine h.next hm (fun v => ?_) hsub (fun v => ?_) fun v t hnone => ?_
  · rw [hlog]
  · rw [htarget, hlog, h.target]
  · rw [hlog] at hnone ⊢
    have hsingle := h.single v t hnone
    rw [hq] at hsingle
    rw [hqueue]
    by_cases hf : f.vm = v ∧ f.target = t
    · obtain ⟨rfl, rfl⟩ := hf
      have hempty := h.flightsTo_eq_nil hbefore hnone
      rw [hq, flightsTo_cons_self] at hempty
      cases hempty
    · rw [flightsTo_cons_of_ne hf] at hsingle
      exact hsingle

theorem move (h : Tracked log sim) (hm : Move rates sim events sim') :
    Tracked (log ++ events) sim' := by
  cases hm.traffic h.reachable.ownership with
  | still hlog htarget hqueue => exact h.still hm (hlog log) htarget hqueue
  | depart hd hlog hbefore hafter hqueue hvm =>
    exact h.depart hm hd (hlog log) hbefore hafter hqueue hvm
  | leave hlog hafter hqueue => exact h.leave hm (hlog log) hafter hqueue
  | arrive hq hbefore hlog hafter hqueue => exact h.arrive hm hq hbefore (hlog log) hafter hqueue
  | lapse hq hbefore hlog htarget hqueue => exact h.lapse hm hq hbefore (hlog log) htarget hqueue

theorem moves {start : Simulation α π} (h : Tracked [] start) (hm : Moves rates start log sim) :
    Tracked log sim := hm.invariant h fun _ _ _ _ htracked hmove => htracked.move hmove

end Tracked

theorem Moves.config_eq (h : Moves rates sim events sim') : sim'.config = sim.config :=
  h.invariant (P := fun _ last => last.config = sim.config) rfl
    fun _ _ _ _ hsame hmove => hmove.config_eq.trans hsame

/-! ### Landings and departures -/

theorem larger_eq_or_not_lt (a b : α) :
    Scalar.larger a b = a ∨ ¬Scalar.larger a b < a := by
  rw [Scalar.larger]
  split
  · exact .inl rfl
  · rename_i hlt
    split
    · exact .inr hlt
    · exact .inl rfl

variable [KeepsLedger α π]

/-- A VM lands on the target of the migration that it is in, and never before some migration that
was started to this host has taken its time. Unless a migration of the VM to this host was given up,
it is the migration that the VM is in. Migrations take as long as their VM says. -/
theorem landings_follow_departures (config : Config α) (policy : π) (id : Nat)
    (commands : List (Command α)) :
    (∀ before entry after v s t,
      ((create config policy id).run commands).events = before ++ entry :: after →
      entry.event = .migrationCompleted v s t →
      ∃ stamp current d, entry.stamp = some stamp
        ∧ (itinerary v before).current = some current ∧ current.target = t
        ∧ d ∈ (itinerary v before).made ∧ d.target = t
        ∧ (stamp.time = d.start + d.duration ∨ ¬stamp.time < d.start + d.duration)
        ∧ ((itinerary v before).NoneAbandoned t → current = d))
    ∧ ∀ sim, ((create config policy id).run commands).result = .ok sim →
      ∀ v, ∀ d ∈ (itinerary v ((create config policy id).run commands).events).made,
        ∃ vm, sim.pool.vms.get? v = some vm
          ∧ d.duration = vm.migrationDuration config.migrationOverhead := by
  have htraces : Traces _ _ ((create config policy id).run commands) fun last => last :=
    traces_run _ fun command _ => command.asksFor_any
  have hstart := Tracked.create config policy id
  refine ⟨fun before entry after v s t hlog he => ?_, fun sim hsim v d hd => ?_⟩
  · obtain ⟨last, hmoves, -⟩ := htraces
    obtain ⟨now, next, hbefore, hmove, -⟩ := hmoves.split hlog
    have htracked := hstart.moves hbefore
    obtain ⟨f, rest, hq, rfl, rfl, ht, rfl⟩ := hmove.of_migrationCompleted he
    have hmoving := ht
    rw [htracked.target, Option.map_eq_some_iff] at hmoving
    obtain ⟨current, hcurrent, htarget⟩ := hmoving
    obtain ⟨d, hmade, hsame, hfinish, hnone⟩ :=
      htracked.departure_of_first hq hcurrent htarget
    have htime : (now.atFinish f rest).time = d.finish
        ∨ ¬(now.atFinish f rest).time < d.finish := by
      rw [hfinish]
      exact larger_eq_or_not_lt f.finish now.time
    exact ⟨_, current, d, rfl, hcurrent, htarget, hmade, hsame, htime, hnone⟩
  · have hmoves := htraces.moves hsim
    have htracked := hstart.moves hmoves
    obtain ⟨vm, hv, hduration⟩ := htracked.lasting v d hd
    rw [hmoves.config_eq] at hduration
    exact ⟨vm, hv, hduration.symm⟩

/-- The event tells that the VM lands. -/
def completes (v : VmId) (s t : HostId) : Event α → Bool
  | .migrationCompleted w g h => w == v && g == s && h == t
  | _ => false

omit [Scalar α] in
theorem cut_of_completes {entries : List (LogEntry α)} {n : Nat} {v : VmId} {s t : HostId}
    {test : LogEntry α → Bool}
    (h : (entries[n]?.any fun entry => completes v s t entry.event && test entry) = true) :
    ∃ entry, entries = entries.take n ++ entry :: entries.drop (n + 1)
      ∧ entry.event = .migrationCompleted v s t ∧ test entry = true := by
  rw [Option.any_eq_true] at h
  obtain ⟨entry, hentry, h⟩ := h
  rw [Bool.and_eq_true] at h
  obtain ⟨hn, rfl⟩ := List.getElem?_eq_some_iff.mp hentry
  refine ⟨entries[n], ?_, ?_, h.2⟩
  · rw [List.getElem_cons_drop, List.take_append_drop]
  · have hevent := h.1
    cases he : entries[n].event with
    | migrationCompleted w g f =>
      simp only [he, completes, Bool.and_eq_true, beq_iff_eq] at hevent
      obtain ⟨⟨rfl, rfl⟩, rfl⟩ := hevent
      rfl
    | _ =>
      rw [he] at hevent
      cases hevent

theorem busyRun_lands : ∃ before entry after stamp d,
    (busyStart.run busyRun).events = before ++ entry :: after
    ∧ entry.event = .migrationCompleted 1 0 1 ∧ (itinerary 1 before).NoneAbandoned 1
    ∧ entry.stamp = some stamp ∧ (itinerary 1 before).current = some d ∧ d.target = 1
    ∧ (stamp.time = d.start + d.duration ∨ ¬stamp.time < d.start + d.duration) := by
  have hrun : ((busyStart.run busyRun).events[7]?.any fun entry => completes 1 0 1 entry.event
      && (itinerary 1 ((busyStart.run busyRun).events.take 7)).abandoned.isEmpty) = true := by
    decide +kernel
  obtain ⟨entry, hlog, he, hempty⟩ := cut_of_completes hrun
  have hnone : (itinerary 1 ((busyStart.run busyRun).events.take 7)).NoneAbandoned 1 := by
    rw [Itinerary.NoneAbandoned, List.isEmpty_iff.mp hempty]
    exact fun _ hd => nomatch hd
  obtain ⟨stamp, current, d, hstamp, hcurrent, htarget, -, -, htime, hsame⟩ :=
    (landings_follow_departures _ _ 7 busyRun).1 _ entry _ 1 0 1 hlog he
  have hd := hsame hnone
  subst hd
  exact ⟨_, entry, _, stamp, current, hlog, he, hnone, hstamp, hcurrent, htarget, htime⟩

/-- A VM starts to move, is released, and is placed again on the same host. A step later it starts
to move to the same host once more. -/
def returningRun : List (Command Float) :=
  let host : HostSpec Float := ⟨"host", 4, 1000, 8192, 1000, 100000, .linear 200 0.5⟩
  [.addHost host, .addHost host, .submitVm ⟨"tenant", 1, 500, 1024, 0, 1000⟩,
    .applyPlan [planned 0 0 1], .releaseVm 0, .placeVm 0, .step, .applyPlan [planned 0 0 1], .step]

/-- A simulation in which migrations take longer than a step. -/
def slowStart : Simulation Float (SingleThreshold Float) :=
  let thresholds : Thresholds Float := ⟨0.8, 0.3⟩
  create ⟨"datacenter", "SingleThreshold", thresholds, 30, 30, 3, false, 40, [], []⟩
    (.ofThresholds thresholds) 7

/-- The VM lands when the first of its migrations comes up, long before the second one, which it is
in, has taken its time. -/
theorem returningRun_lands_early : ∃ before entry after stamp d,
    (slowStart.run returningRun).events = before ++ entry :: after
    ∧ entry.event = .migrationCompleted 0 0 1 ∧ entry.stamp = some stamp
    ∧ (itinerary 0 before).current = some d ∧ d.target = 1
    ∧ stamp.time + Scalar.epsilon < d.start + d.duration := by
  have hrun : ((slowStart.run returningRun).events[8]?.any fun entry => completes 0 0 1 entry.event
      && entry.stamp.any fun stamp =>
        (itinerary 0 ((slowStart.run returningRun).events.take 8)).current.any fun d =>
          d.target == 1 && decide (stamp.time + Scalar.epsilon < d.start + d.duration)) = true := by
    decide +kernel
  obtain ⟨entry, hlog, he, htest⟩ := cut_of_completes hrun
  simp only [Option.any_eq_true, Bool.and_eq_true, beq_iff_eq, decide_eq_true_eq] at htest
  obtain ⟨stamp, hstamp, d, hcurrent, htarget, hearly⟩ := htest
  exact ⟨_, entry, _, stamp, d, hlog, he, hstamp, hcurrent, htarget, hearly⟩

end Simulation

end Datacenter
