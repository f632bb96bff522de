import Mathlib.Data.List.TakeWhile
import Datacenter.Proofs.Effects
import Datacenter.Proofs.Landings

/-!
# Arrivals

Each VM that moves has a migration to its target in flight, whatever is released, placed again or
undone in the meantime. So no reservation is forgotten: when this migration comes up, the VM still
moves to the host and lands there, or it moves there no more.

Main statements: `Covered.move`, `land_of_moving` and `fold_land_eq_ok`.
-/

namespace Datacenter

variable {α : Type} [Scalar α]

/-- The placement of a VM after migrations have come up. -/
def Placement.after (p : Placement) (v : VmId) (due : List (InFlight α)) : Placement :=
  match p.target with
  | some t => if ∃ f ∈ due, f.vm = v ∧ f.target = t then ⟨some t, none⟩ else p
  | none => p

omit [Scalar α] in
theorem Placement.after_of_due {p : Placement} {v : VmId} {due : List (InFlight α)}
    {f : InFlight α} (hf : f ∈ due) (hv : f.vm = v) (ht : p.target = some f.target) :
    p.after v due = ⟨some f.target, none⟩ := by
  have hdue : ∃ x ∈ due, x.vm = v ∧ x.target = f.target := ⟨f, hf, hv, rfl⟩
  rw [after, ht]
  exact if_pos hdue

omit [Scalar α] in
theorem Placement.after_of_not_due {p : Placement} {v : VmId} {due : List (InFlight α)}
    (h : ∀ f ∈ due, f.vm = v → p.target ≠ some f.target) : p.after v due = p := by
  rw [after]
  split
  · rename_i t ht
    rw [if_neg]
    intro hdue
    obtain ⟨f, hf, hv, htarget⟩ := hdue
    exact h f hf hv (htarget ▸ ht)
  · rfl

omit [Scalar α] in
/-- Migrations come up one after the other. -/
theorem Placement.after_cons (p : Placement) (v : VmId) (f : InFlight α)
    (due : List (InFlight α)) : p.after v (f :: due) = (p.after v [f]).after v due := by
  by_cases hf : f.vm = v ∧ p.target = some f.target
  · -- The VM lands at once, and moves no more.
    rw [after_of_due List.mem_cons_self hf.1 hf.2, after_of_due List.mem_cons_self hf.1 hf.2]
    refine (after_of_not_due fun x _ _ => ?_).symm
    simp
  · have hfirst : p.after v [f] = p := by
      refine after_of_not_due fun x hx hv ht => hf ?_
      rw [List.mem_singleton.mp hx] at hv ht
      exact ⟨hv, ht⟩
    rw [hfirst]
    by_cases hdue : ∃ x ∈ due, x.vm = v ∧ p.target = some x.target
    · obtain ⟨x, hx, hv, ht⟩ := hdue
      rw [after_of_due hx hv ht, after_of_due (List.mem_cons_of_mem f hx) hv ht]
    · rw [after_of_not_due fun x hx hv ht => hdue ⟨x, hx, hv, ht⟩, after_of_not_due]
      intro x hx hv ht
      rcases List.mem_cons.mp hx with rfl | hx
      · exact hf ⟨hv, ht⟩
      · exact hdue ⟨x, hx, hv, ht⟩

namespace Simulation

variable {π : Type} {sim sim' : Simulation α π} {log events : List (LogEntry α)}

/-! ### What is in flight -/

/-- Each VM that moves has a migration to its target in flight. -/
def Covered (sim : Simulation α π) : Prop :=
  ∀ v t, sim.targetOf v = some t → ∃ f ∈ sim.inFlight, f.vm = v ∧ f.target = t

variable [AllocationPolicy α π] {rates : α → Prop}

omit [Scalar α] [AllocationPolicy α π] in
/-- If a VM does not wait for the first migration in flight, a later one is its own. -/
theorem Covered.of_ne_first (h : Covered sim) {f : InFlight α} {rest : List (InFlight α)}
    (hq : sim.inFlight = f :: rest) {v : VmId} {t : HostId} (ht : sim.targetOf v = some t)
    (hne : ¬(f.vm = v ∧ f.target = t)) : ∃ x ∈ rest, x.vm = v ∧ x.target = t := by
  obtain ⟨x, hx, hto⟩ := h v t ht
  rw [hq, List.mem_cons] at hx
  rcases hx with rfl | hx
  · exact absurd hto hne
  · exact ⟨x, hx, hto⟩

theorem Covered.move (h : Covered sim) (own : sim.pool.Ownership)
    (hm : Move rates sim events sim') : Covered sim' := by
  intro v t ht
  cases hm.traffic own with
  | still _ htarget hqueue =>
    rw [hqueue]
    exact h v t (htarget v ▸ ht)
  | @depart f d hd _ _ hafter hqueue _ =>
    rw [hafter] at ht
    rw [hqueue]
    split at ht
    · rename_i hv
      exact ⟨f, (InFlight.mem_enqueue_iff _ _ _).mpr (.inl rfl), hv, hd.1 ▸ Option.some.inj ht⟩
    · obtain ⟨x, hx, hto⟩ := h v t ht
      exact ⟨x, (InFlight.mem_enqueue_iff _ _ _).mpr (.inr hx), hto⟩
  | leave _ hafter hqueue =>
    rw [hafter] at ht
    rw [hqueue]
    split at ht
    · cases ht
    · exact h v t ht
  | arrive hq _ _ hafter hqueue =>
    rw [hafter] at ht
    rw [hqueue]
    split at ht
    · cases ht
    · rename_i hv
      exact h.of_ne_first hq ht fun hf => hv hf.1
  | lapse hq hbefore _ htarget hqueue =>
    rw [htarget] at ht
    rw [hqueue]
    refine h.of_ne_first hq ht ?_
    rintro ⟨rfl, rfl⟩
    exact hbefore ht

/-- No migration that comes up for the host that its VM moves to is refused. -/
theorem Move.ne_migrationFailed (own : sim.pool.Ownership) (h : Move rates sim events sim') :
    ∀ entry ∈ events, ∀ v reason, entry.event ≠ .migrationFailed v reason := by
  intro entry he v reason hfailed
  cases h with
  | note hneutral =>
    rw [List.mem_singleton.mp he] at hfailed
    rw [hfailed] at hneutral
    cases hneutral
  | fail hq ht hrefused =>
    rw [targetOf_eq] at ht
    exact own.finishMigration_ne_refused ht _ hrefused
  | addHost | place | release | resize | start | arrive | lapse =>
    rw [List.mem_singleton.mp he] at hfailed
    cases hfailed
  | addVm | wait | leaveQueue | emptyQueue | decide | undo | tick | sample | meter => cases he

theorem Moves.covered {start : Simulation α π} (hr : start.pool.Reachable) (hs : Covered start)
    (h : Moves rates start log sim) :
    Covered sim ∧ ∀ entry ∈ log, ∀ v reason, entry.event ≠ .migrationFailed v reason := by
  have hall : sim.pool.Reachable ∧ Covered sim
      ∧ ∀ entry ∈ log, ∀ v reason, entry.event ≠ .migrationFailed v reason := by
    refine h.invariant (P := fun log last => last.pool.Reachable ∧ Covered last
      ∧ ∀ entry ∈ log, ∀ v reason, entry.event ≠ .migrationFailed v reason)
      ⟨hr, hs, fun _ he => nomatch he⟩ ?_
    intro log events sim sim' ⟨hr, hcovered, hlog⟩ hm
    refine ⟨hm.pool_steps.reachable hr, hcovered.move hr.ownership hm, fun entry he => ?_⟩
    rcases List.mem_append.mp he with he | he
    · exact hlog entry he
    · exact hm.ne_migrationFailed hr.ownership entry he
  exact hall.2

/-! ### Coming up -/

omit [AllocationPolicy α π] in
/-- A migration that comes up for the host that its VM moves to lands the VM there. -/
theorem land_of_moving (hr : sim.pool.Reachable) {f : InFlight α}
    (ht : sim.targetOf f.vm = some f.target) :
    ∃ s pool, sim.pool.finishMigration f.vm = .done (s, pool)
      ∧ sim.land f = ⟨[(sim.atFinish f sim.inFlight).stamped
          (.migrationCompleted f.vm s f.target)],
        .ok ({ sim.atFinish f sim.inFlight with
          pool, completed := sim.completed + 1 } : Simulation α π).meterPower⟩ := by
  have hplaced := ht
  rw [targetOf_eq] at hplaced
  cases hfinish : sim.pool.finishMigration f.vm with
  | refused reason => exact absurd hfinish (hr.ownership.finishMigration_ne_refused hplaced _)
  | fault e => exact absurd hfinish (Pool.finishMigration_isSettled hr.balanced f.vm e)
  | done r =>
    refine ⟨r.1, r.2, rfl, ?_⟩
    have hnot : ¬(sim.pool.vms.get? f.vm).bind (·.migrationTarget) ≠ some f.target := not_not.mpr ht
    simp only [land, complete, if_neg hnot, hfinish]
    rfl

omit [AllocationPolicy α π] in
/-- A migration that comes up for another host than the one that its VM moves to changes nothing. -/
theorem land_of_not_moving {f : InFlight α} (ht : sim.targetOf f.vm ≠ some f.target) :
    sim.land f = ⟨[(sim.atFinish f sim.inFlight).stamped (.migrationCancelled f.vm)],
      .ok (sim.atFinish f sim.inFlight).meterPower⟩ := by
  have hcancelled : (sim.pool.vms.get? f.vm).bind (·.migrationTarget) ≠ some f.target := ht
  simp only [land, complete, if_pos hcancelled]
  rfl

omit [AllocationPolicy α π] in
theorem land_eq_ok (hr : sim.pool.Reachable) (f : InFlight α) :
    ∃ sim', (sim.land f).result = .ok sim' ∧ sim'.pool.Reachable
      ∧ ∀ v, sim'.pool.placement v = (sim.pool.placement v).map (·.after v [f]) := by
  by_cases ht : sim.targetOf f.vm = some f.target
  · obtain ⟨s, pool, hfinish, hland⟩ := land_of_moving hr ht
    have hsteps : Pool.Steps (fun _ => True) sim.pool pool :=
      .of_change (.finishMigration hfinish) trivial
    obtain ⟨t, hbefore, hafter⟩ := Pool.finishMigration_placement hfinish
    rw [targetOf_eq, hbefore] at ht
    have htarget : t = f.target := Option.some.inj ht
    refine ⟨_, by rw [hland], hsteps.reachable hr, fun v => (hafter v).trans ?_⟩
    split
    · rename_i hv
      rw [hv, hbefore, Option.map_some, htarget,
        Placement.after_of_due List.mem_cons_self rfl rfl]
    · rename_i hv
      have hother : ∀ p : Placement, p.after v [f] = p := fun p =>
        Placement.after_of_not_due fun x hx hvm => by
          rw [List.mem_singleton.mp hx] at hvm
          exact absurd hvm.symm hv
      simp [hother]
  · have hland := land_of_not_moving ht
    refine ⟨(sim.atFinish f sim.inFlight).meterPower, by rw [hland], hr, fun v => ?_⟩
    change sim.pool.placement v = _
    cases hp : sim.pool.placement v with
    | none => rfl
    | some p =>
      rw [Option.map_some, Placement.after_of_not_due]
      intro x hx hvm htarget
      rw [List.mem_singleton.mp hx] at hvm htarget
      rw [targetOf_eq, hvm, hp] at ht
      exact ht htarget

omit [AllocationPolicy α π] in
/-- Migrations that come up one after the other land all VMs that move to their targets. -/
theorem fold_land_eq_ok (hr : sim.pool.Reachable) (due : List (InFlight α)) :
    ∃ sim', (Logged.fold land sim due).result = .ok sim'
      ∧ ∀ v, sim'.pool.placement v = (sim.pool.placement v).map (·.after v due) := by
  rw [Logged.fold_eq_foldlM]
  induction due generalizing sim with
  | nil =>
    have hnil : ∀ (v : VmId) (p : Placement), p.after v ([] : List (InFlight α)) = p :=
      fun v p => Placement.after_of_not_due fun _ hf => nomatch hf
    exact ⟨sim, rfl, fun v => by simp [hnil]⟩
  | cons f rest ih =>
    obtain ⟨next, hnext, hreach, hone⟩ := land_eq_ok hr f
    obtain ⟨sim', hrest, hafter⟩ := ih hreach
    refine ⟨sim', ?_, fun v => ?_⟩
    · rw [List.foldlM_cons, Logged.result_bind, hnext]
      exact hrest
    · rw [hafter, hone, Option.map_map]
      exact Option.map_congr fun p _ => (p.after_cons v f rest).symm

/-! ### Runs -/

variable [KeepsLedger α π]

/-- Each VM that moves has a migration to its target in flight, and so has each reservation. When it
comes up and the VM still moves there, the VM lands; it is never refused. Once all migrations have
come up, all VMs that moved are on their targets. -/
theorem moving_vms_arrive (config : Config α) (policy : π) (id : Nat)
    (commands : List (Command α)) :
    (∀ entry ∈ ((create config policy id).run commands).events,
      ∀ v reason, entry.event ≠ .migrationFailed v reason)
    ∧ ∀ sim, ((create config policy id).run commands).result = .ok sim →
      (∀ v t, sim.targetOf v = some t → ∃ f ∈ sim.inFlight, f.vm = v ∧ f.target = t)
      ∧ (∀ h host v, sim.pool.hosts.get? h = some host → host.incoming.contains v = true →
        ∃ f ∈ sim.inFlight, f.vm = v ∧ f.target = h)
      ∧ (∀ f ∈ sim.inFlight, sim.targetOf f.vm = some f.target →
        ∃ s sim', sim.land f = ⟨[(sim.atFinish f sim.inFlight).stamped
            (.migrationCompleted f.vm s f.target)], .ok sim'⟩
          ∧ sim'.pool.placement f.vm = some ⟨some f.target, none⟩
          ∧ sim'.completed = sim.completed + 1)
      ∧ ∀ time, ∃ sim', (sim.landUntil time).result = .ok sim'
        ∧ (∀ v, sim'.pool.placement v
          = (sim.pool.placement v).map (·.after v (sim.dueUntil time)))
        ∧ ((∀ f ∈ sim.inFlight, ¬time + Scalar.epsilon < f.finish) →
          ∀ v t, sim.targetOf v = some t → sim'.pool.placement v = some ⟨some t, none⟩) := by
  have htraces : Traces _ _ ((create config policy id).run commands) fun last => last :=
    traces_run _ fun command _ => command.asksFor_any
  have hcreate : Covered (create config policy id) := fun _ _ ht => nomatch ht
  have hempty : (create config policy id).pool.Reachable := .refl _
  refine ⟨?_, fun sim hsim => ?_⟩
  · obtain ⟨last, hmoves, -⟩ := htraces
    exact (hmoves.covered hempty hcreate).2
  · have hcovered := ((htraces.moves hsim).covered hempty hcreate).1
    have hr := (reachable_of_run hsim).pool_reachable
    refine ⟨hcovered, fun h host v hh hv => hcovered v h ?_, fun f _ ht => ?_, fun time => ?_⟩
    · have hkey := (Table.contains_iff _ _).mp hv
      obtain ⟨p, hp, htarget⟩ := (hr.ownership.mem_incoming_iff hh v).mp hkey
      rw [targetOf_eq, hp]
      exact htarget
    · obtain ⟨s, pool, hfinish, hland⟩ := land_of_moving hr ht
      obtain ⟨t, hbefore, hafter⟩ := Pool.finishMigration_placement hfinish
      rw [targetOf_eq, hbefore] at ht
      refine ⟨s, _, hland, ?_, rfl⟩
      have hplaced := hafter f.vm
      rw [if_pos rfl, show some t = some f.target from ht] at hplaced
      exact hplaced
    · have hbefore : (sim.withoutDue time).pool.Reachable := hr
      obtain ⟨sim', hlanded, hafter⟩ := fold_land_eq_ok hbefore (sim.dueUntil time)
      have hplaced : ∀ v, sim'.pool.placement v
          = (sim.pool.placement v).map (·.after v (sim.dueUntil time)) := hafter
      refine ⟨sim', hlanded, hplaced, fun hall v t ht => ?_⟩
      have hdue : sim.dueUntil time = sim.inFlight :=
        List.takeWhile_eq_self_iff.mpr fun f hf => by simpa using hall f hf
      obtain ⟨f, hf, hv, hto⟩ := hcovered v t ht
      obtain ⟨p, hp, htarget⟩ := Option.bind_eq_some_iff.mp (targetOf_eq sim v ▸ ht)
      rw [hplaced v, hp, Option.map_some, hdue, Placement.after_of_due hf hv (hto.symm ▸ htarget),
        hto]

/-- While a VM is on its way, a plan around its target is rejected. Then the VM is released, placed
again and sent to the same host once more. -/
def restlessRun : List (Command Float) :=
  busyRun ++ [.applyPlan tangledPlan, .releaseVm 0, .placeVm 0, .applyPlan [planned 0 0 1]]

theorem restlessRun_arrives : ∃ sim f sim', (busyStart.run restlessRun).result = .ok sim
    ∧ sim.targetOf 0 = some 1 ∧ f ∈ sim.inFlight ∧ f.vm = 0 ∧ f.target = 1
    ∧ (∀ f ∈ sim.inFlight, ¬(30000 : Float) + Scalar.epsilon < f.finish)
    ∧ (sim.landUntil 30000).result = .ok sim'
    ∧ sim'.pool.placement 0 = some ⟨some 1, none⟩ := by
  have hrun : ((busyStart.run restlessRun).result.toOption.any fun sim =>
      sim.targetOf 0 == some 1
        && sim.inFlight.all fun f => !((30000 : Float) + Scalar.epsilon < f.finish)) = true := by
    decide +kernel
  obtain ⟨sim, hsim, htest⟩ := Checked.eq_ok_of_any hrun
  rw [Bool.and_eq_true, beq_iff_eq, List.all_eq_true] at htest
  obtain ⟨ht, htime⟩ := htest
  have hall : ∀ f ∈ sim.inFlight, ¬(30000 : Float) + Scalar.epsilon < f.finish := by
    intro f hf
    simpa using htime f hf
  obtain ⟨hflying, -, -, hland⟩ := (moving_vms_arrive _ _ 7 restlessRun).2 sim hsim
  obtain ⟨f, hf, hvm, htarget⟩ := hflying 0 1 ht
  obtain ⟨sim', hlanded, -, harrived⟩ := hland 30000
  exact ⟨sim, f, sim', hsim, ht, hf, hvm, htarget, hall, hlanded, harrived hall 0 1 ht⟩

end Simulation

end Datacenter
