import Datacenter.Proofs.Effects
import Datacenter.Simulation.Summary

/-!
# Waiting VMs

VMs that find no host wait in the order in which they were submitted, and each of them once. They
leave the queue when a step places them or when they are released. Placing one of them directly is
the exception: it does not look at the queue, so this VM waits on although it runs somewhere.

Main statements: `pending_fold_retry`, `Waits.obey` and `waits_of_run`.
-/

namespace Datacenter

variable {α : Type}

/-! ### Which VMs run -/

namespace Pool

/-- Whether the VM runs on a host; nothing for an unknown VM. -/
def runs? (pool : Pool α) (v : VmId) : Option Bool := (pool.vms.get? v).map (·.host.isSome)

theorem runs?_eq (pool : Pool α) (v : VmId) :
    pool.runs? v = (pool.placement v).map (·.host.isSome) := by
  rw [runs?, placement, Option.map_map]
  rfl

theorem runs?_eq_some_false_iff (pool : Pool α) (v : VmId) :
    pool.runs? v = some false ↔ ∃ vm, pool.vms.get? v = some vm ∧ vm.host = none := by
  simp [runs?]

theorem runs?_of_placement {pool pool' : Pool α} {v : VmId}
    (h : pool'.placement v = pool.placement v) : pool'.runs? v = pool.runs? v := by
  rw [runs?_eq, runs?_eq, h]

variable [Scalar α] {pool pool' : Pool α} {v : VmId}

theorem allocate_runs? (own : pool.Ownership) {h : HostId}
    (hdone : pool.allocate v h = .done pool') :
    pool.runs? v = some false ∧ ∀ w, pool'.runs? w = if w = v then some true else pool.runs? w := by
  obtain ⟨hbefore, hafter⟩ := allocate_placement own hdone
  refine ⟨?_, fun w => ?_⟩
  · rw [runs?_eq, hbefore]
    rfl
  · rw [runs?_eq, hafter, runs?_eq]
    split
    · rfl
    · rfl

theorem finishMigration_runs? {s : HostId} (hdone : pool.finishMigration v = .done (s, pool'))
    (w : VmId) : pool'.runs? w = pool.runs? w := by
  obtain ⟨t, hbefore, hafter⟩ := finishMigration_placement hdone
  rw [runs?_eq, hafter, runs?_eq]
  split
  · rename_i hw
    rw [hw, hbefore]
    rfl
  · rfl

theorem startPlan_runs? {ms : List (Migration α)} (h : pool.startPlan ms = .ok (pool', none))
    (w : VmId) : pool'.runs? w = pool.runs? w := by
  have hstarted := startPlan_started h
  by_cases hw : ∃ m ∈ ms, m.vm = w
  · obtain ⟨m, hm, rfl⟩ := hw
    obtain ⟨s, hbefore, hafter⟩ := hstarted.planned m hm
    rw [runs?_eq, runs?_eq, hbefore, hafter]
    rfl
  · exact runs?_of_placement (hstarted.others w fun m hm heq => hw ⟨m, hm, heq⟩)

omit [Scalar α] in
theorem addVm_runs? {spec : VmSpec α} (h : pool.addVm spec = .ok (v, pool')) :
    v = pool.nextVm ∧ ∀ w, pool'.runs? w = if w = v then some false else pool.runs? w := by
  obtain ⟨-, hid, rfl⟩ := (addVm_eq_ok_iff _ _ _ _).mp h
  refine ⟨hid, fun w => ?_⟩
  rw [runs?, Table.get?_insert, hid]
  split
  · rfl
  · rfl

theorem Ownership.runs?_nextVm (own : pool.Ownership) : pool.runs? pool.nextVm = none := by
  rw [runs?, Option.map_eq_none_iff]
  cases hv : pool.vms.get? pool.nextVm with
  | none => rfl
  | some vm => exact absurd (own.vm_id _ vm hv).2 (Nat.lt_irrefl _)

end Pool

namespace Simulation

variable {π : Type} [Scalar α] {sim between sim' : Simulation α π}

/-! ### What does not look at the queue -/

/-- The same VMs wait, and the same ones run. -/
structure SameWaiting (sim sim' : Simulation α π) : Prop where
  pending : sim'.pending = sim.pending
  runs : ∀ v, sim'.pool.runs? v = sim.pool.runs? v

namespace SameWaiting

omit [Scalar α] in
theorem refl (sim : Simulation α π) : sim.SameWaiting sim := ⟨rfl, fun _ => rfl⟩

omit [Scalar α] in
theorem trans (hab : sim.SameWaiting between) (hbc : between.SameWaiting sim') :
    sim.SameWaiting sim' :=
  ⟨hbc.pending.trans hab.pending, fun v => (hbc.runs v).trans (hab.runs v)⟩

theorem land {f : InFlight α} (h : (sim.land f).result = .ok sim') : sim.SameWaiting sim' := by
  rcases land_cases h with rfl | ⟨s, pool, hfinish, rfl⟩
  · exact ⟨rfl, fun _ => rfl⟩
  · exact ⟨rfl, fun v => Pool.finishMigration_runs? hfinish v⟩

theorem landUntil {time : α} (h : (sim.landUntil time).result = .ok sim') :
    sim.SameWaiting sim' := by
  rw [landUntil_eq] at h
  have hstart : sim.SameWaiting (sim.withoutDue time) := ⟨rfl, fun _ => rfl⟩
  refine Logged.fold_invariant (P := sim.SameWaiting) hstart ?_ h
  intro state f next _ hstate hnext
  exact hstate.trans (land hnext)

variable [AllocationPolicy α π] [KeepsLedger α π]

theorem applyPlan (own : sim.pool.Ownership) {plan : List (Migration α)}
    {answer : Except PlanRejection Nat} (h : (sim.applyPlan plan).result = .ok (answer, sim')) :
    sim.SameWaiting sim' := by
  rcases applyPlan_effect h with rfl | ⟨policy, pool, flights, started, hstart, rfl⟩ |
    ⟨policy, middle, pool, rejection, hstart, hrestore, rfl⟩
  · exact .refl _
  · exact ⟨rfl, fun v => Pool.startPlan_runs? hstart v⟩
  · have harranged := Pool.undo_arranged own hstart hrestore
    exact ⟨rfl, fun v => Pool.runs?_of_placement (harranged.placement v)⟩

theorem optimize (own : sim.pool.Ownership) {started : Nat}
    (h : sim.optimize.result = .ok (started, sim')) : sim.SameWaiting sim' := by
  obtain ⟨last, monitoring, rfl, rfl | ⟨-, plan, policy, answer, -, happly⟩⟩ := optimize_cases h
  · exact ⟨rfl, fun _ => rfl⟩
  · have hown : ({ sim with policy } : Simulation α π).pool.Ownership := own
    have hsame := applyPlan hown happly
    exact ⟨hsame.pending, hsame.runs⟩

end SameWaiting

/-! ### Trying again -/

omit [Scalar α] in
theorem pending_wait (sim : Simulation α π) (v : VmId) :
    (sim.wait v).pending.toList = sim.pending.toList ++ [v] :=
  Queue.toList_push _ _

variable [AllocationPolicy α π]

theorem runs?_of_retry (own : sim.pool.Ownership) {v : VmId}
    (h : (sim.retry v).result = .ok sim') :
    sim'.pool.Ownership ∧ (∀ w, w ≠ v → sim'.pool.runs? w = sim.pool.runs? w)
      ∧ (sim.pool.runs? v = some true → sim'.pool.runs? v = some true) := by
  rcases retry_cases h with ⟨-, rfl⟩ | ⟨-, rfl⟩ | ⟨host, pool, hallocate, rfl⟩
  · exact ⟨own, fun _ _ => rfl, fun hv => hv⟩
  · exact ⟨own, fun _ _ => rfl, fun hv => hv⟩
  · obtain ⟨hbefore, hafter⟩ := Pool.allocate_runs? own hallocate
    refine ⟨own.change (.allocate hallocate), fun w hw => ?_, fun hv => ?_⟩
    · exact (hafter w).trans (if_neg hw)
    · exact (hafter v).trans (if_pos rfl)

theorem runs?_of_fold_retry (own : sim.pool.Ownership) {vs : List VmId}
    (h : (Logged.fold retry sim vs).result = .ok sim') :
    sim'.pool.Ownership ∧ (∀ w, w ∉ vs → sim'.pool.runs? w = sim.pool.runs? w)
      ∧ ∀ w, sim.pool.runs? w = some true → sim'.pool.runs? w = some true := by
  refine Logged.fold_invariant (P := fun last => last.pool.Ownership
    ∧ (∀ w, w ∉ vs → last.pool.runs? w = sim.pool.runs? w)
    ∧ ∀ w, sim.pool.runs? w = some true → last.pool.runs? w = some true)
    ⟨own, fun _ _ => rfl, fun _ hw => hw⟩ ?_ h
  intro state v next hv hstate hnext
  obtain ⟨hown, hothers, hrunning⟩ := hstate
  obtain ⟨hown', hkept, hon⟩ := runs?_of_retry hown hnext
  refine ⟨hown', fun w hw => ?_, fun w hw => ?_⟩
  · have hne : w ≠ v := fun heq => hw (heq ▸ hv)
    exact (hkept w hne).trans (hothers w hw)
  · by_cases heq : w = v
    · exact heq ▸ hon (heq ▸ hrunning w hw)
    · exact (hkept w heq).trans (hrunning w hw)

/-- Each VM that is tried again is put at the end of the queue, unless it is placed. One that runs
already is not placed once more. -/
theorem pending_fold_retry (own : sim.pool.Ownership) {vs : List VmId} (hnodup : vs.Nodup)
    (hknown : ∀ v ∈ vs, sim.pool.runs? v ≠ none)
    (h : (Logged.fold retry sim vs).result = .ok sim') :
    sim'.pending.toList = sim.pending.toList
      ++ vs.filter fun v => sim.pool.runs? v = some true ∨ sim'.pool.runs? v = some false := by
  induction vs generalizing sim with
  | nil =>
    cases h
    simp
  | cons v rest ih =>
    rw [Logged.fold_eq_foldlM, List.foldlM_cons, Logged.result_bind, Checked.bind_eq_ok_iff] at h
    obtain ⟨next, hnext, hrest⟩ := h
    rw [← Logged.fold_eq_foldlM] at hrest
    obtain ⟨hv, hnodup⟩ := List.nodup_cons.mp hnodup
    obtain ⟨hown, hkept, hon⟩ := runs?_of_retry own hnext
    obtain ⟨-, hothers, -⟩ := runs?_of_fold_retry hown hrest
    have hlast : sim'.pool.runs? v = next.pool.runs? v := hothers v hv
    have hsame : ∀ w ∈ rest, next.pool.runs? w = sim.pool.runs? w :=
      fun w hw => hkept w fun heq => hv (heq ▸ hw)
    -- Trying `v` changes no other VM, so the rest may be counted from the start.
    have hlater : rest.filter (fun w => next.pool.runs? w = some true
        ∨ sim'.pool.runs? w = some false)
        = rest.filter fun w => sim.pool.runs? w = some true ∨ sim'.pool.runs? w = some false :=
      List.filter_congr fun w hw => by rw [hsame w hw]
    have hknown' : ∀ w ∈ rest, next.pool.runs? w ≠ none := by
      intro w hw
      rw [hsame w hw]
      exact hknown w (List.mem_cons_of_mem v hw)
    rcases retry_cases hnext with ⟨hnone, -⟩ | ⟨-, rfl⟩ | ⟨host, pool, hallocate, rfl⟩
    · have hgone : sim.pool.runs? v = none := by rw [Pool.runs?, hnone, Option.map_none]
      exact absurd hgone (hknown v List.mem_cons_self)
    · -- The VM waits on, whether it runs or not.
      have hstays : sim.pool.runs? v = some true ∨ sim'.pool.runs? v = some false := by
        rw [hlast]
        change sim.pool.runs? v = some true ∨ sim.pool.runs? v = some false
        cases hr : sim.pool.runs? v with
        | none => exact absurd hr (hknown v List.mem_cons_self)
        | some b => cases b <;> simp
      rw [ih hown hnodup hknown' hrest, hlater, pending_wait, List.append_assoc,
        List.filter_cons_of_pos (by simpa using hstays)]
      rfl
    · obtain ⟨hbefore, hafter⟩ := Pool.allocate_runs? own hallocate
      have hleaves : ¬(sim.pool.runs? v = some true ∨ sim'.pool.runs? v = some false) := by
        have hnow : pool.runs? v = some true := (hafter v).trans (if_pos rfl)
        have hends : sim'.pool.runs? v = some true := hlast.trans hnow
        simp [hbefore, hends]
      rw [ih hown hnodup hknown' hrest, hlater,
        List.filter_cons_of_neg (by simpa using hleaves)]
      rfl

/-! ### Commands -/

/-- The VMs that wait after a command that leads to the pool, in their order. -/
def queueAfter (sim : Simulation α π) (pool : Pool α) : Command α → List VmId
  | .submitVm _ => sim.pending.toList ++ [sim.pool.nextVm].filter fun v => pool.runs? v = some false
  | .releaseVm v => sim.pending.toList.filter fun w => w ≠ v
  | .step =>
    sim.pending.toList.filter fun v => sim.pool.runs? v = some true ∨ pool.runs? v = some false
  | .addHost _ | .placeVm _ | .updateVmMips _ _ | .applyPlan _ | .optimize => sim.pending.toList

/-- VMs wait once each. A waiting VM is in the pool, and runs nowhere unless it is excused. -/
structure Waits (excused : VmId → Prop) (sim : Simulation α π) : Prop where
  nodup : sim.pending.toList.Nodup
  idle : ∀ v ∈ sim.pending.toList,
    sim.pool.runs? v = some false ∨ (sim.pool.runs? v = some true ∧ excused v)

variable {excused : VmId → Prop}

omit [Scalar α] [AllocationPolicy α π] in
theorem Waits.ne_none (h : Waits excused sim) {v : VmId} (hv : v ∈ sim.pending.toList) :
    sim.pool.runs? v ≠ none := by
  rcases h.idle v hv with hr | ⟨hr, -⟩
  · simp [hr]
  · simp [hr]

omit [AllocationPolicy α π] in
theorem Waits.nextVm_not_mem (h : Waits excused sim) (own : sim.pool.Ownership) :
    sim.pool.nextVm ∉ sim.pending.toList :=
  fun hmem => h.ne_none hmem own.runs?_nextVm

omit [AllocationPolicy α π] in
/-- The VMs that wait after a command wait once each. -/
theorem Waits.nodup_queueAfter (h : Waits excused sim) (own : sim.pool.Ownership) (pool : Pool α)
    (command : Command α) : (sim.queueAfter pool command).Nodup := by
  cases command with
  | submitVm spec =>
    refine List.nodup_append.mpr ⟨h.nodup, (List.nodup_singleton _).filter _, ?_⟩
    rintro v hv w hw rfl
    rw [List.mem_singleton.mp (List.mem_of_mem_filter hw)] at hv
    exact h.nextVm_not_mem own hv
  | releaseVm v => exact h.nodup.filter _
  | step => exact h.nodup.filter _
  | addHost | placeVm | updateVmMips | applyPlan | optimize => exact h.nodup

omit [Scalar α] [AllocationPolicy α π] in
theorem Waits.same (h : Waits excused sim) (hs : sim.SameWaiting sim') :
    sim'.pending.toList = sim.pending.toList ∧ Waits excused sim' := by
  refine ⟨congrArg Queue.toList hs.pending, hs.pending ▸ h.nodup, fun v hv => ?_⟩
  rw [hs.pending] at hv
  rw [hs.runs]
  exact h.idle v hv

theorem Waits.submitVm (h : Waits excused sim) (own : sim.pool.Ownership) {spec : VmSpec α}
    {v : VmId} (hsubmit : (sim.submitVm spec).result = .ok (v, sim')) :
    sim'.pending.toList = sim.queueAfter sim'.pool (.submitVm spec) ∧ Waits excused sim' := by
  obtain ⟨pool, hadd, hcases⟩ := submitVm_cases hsubmit
  obtain ⟨rfl, hadded⟩ := Pool.addVm_runs? hadd
  have hnew := h.nextVm_not_mem own
  have hnow : pool.runs? sim.pool.nextVm = some false := (hadded _).trans (if_pos rfl)
  have hne : ∀ w ∈ sim.pending.toList, w ≠ sim.pool.nextVm := fun w hw heq => hnew (heq ▸ hw)
  have hothers : ∀ w ∈ sim.pending.toList, pool.runs? w = sim.pool.runs? w :=
    fun w hw => (hadded w).trans (if_neg (hne w hw))
  rcases hcases with rfl | ⟨host, pool', hallocate, rfl⟩
  · have hqueue : (({ sim with pool } : Simulation α π).wait sim.pool.nextVm).pending.toList
        = sim.queueAfter pool (.submitVm spec) := by
      rw [pending_wait, queueAfter]
      simp [hnow]
    refine ⟨hqueue, hqueue ▸ h.nodup_queueAfter own pool _, fun w hw => ?_⟩
    rw [pending_wait, List.mem_append, List.mem_singleton] at hw
    rw [pool_wait]
    rcases hw with hw | rfl
    · rw [hothers w hw]
      exact h.idle w hw
    · exact .inl hnow
  · have hown : pool.Ownership := own.change (.addVm hadd)
    obtain ⟨-, hafter⟩ := Pool.allocate_runs? hown hallocate
    have hplaced : pool'.runs? sim.pool.nextVm = some true := (hafter _).trans (if_pos rfl)
    refine ⟨?_, h.nodup, fun w hw => ?_⟩
    · rw [queueAfter]
      simp [hplaced]
    · have hsame : pool'.runs? w = sim.pool.runs? w := by
        rw [hafter, if_neg (hne w hw)]
        exact hothers w hw
      rw [pool_meterPower, hsame]
      exact h.idle w hw

omit [AllocationPolicy α π] in
theorem Waits.releaseVm (h : Waits excused sim) {v : VmId} {answer : Option HostId}
    (hrelease : (sim.releaseVm v).result = .ok (answer, sim')) :
    sim'.pending.toList = sim.queueAfter sim'.pool (.releaseVm v) ∧ Waits excused sim' := by
  have hqueue := Queue.toList_filter (· ≠ v) sim.pending
  have hleft : ∀ pool : Pool α, (∀ w, w ≠ v → pool.runs? w = sim.pool.runs? w) →
      Waits excused
        ({ sim with pool, pending := sim.pending.filter (· ≠ v) } : Simulation α π) := by
    intro pool hpool
    refine ⟨hqueue ▸ h.nodup.filter _, fun w hw => ?_⟩
    rw [hqueue, List.mem_filter, decide_eq_true_eq] at hw
    have hsame := hpool w hw.2
    change pool.runs? w = some false ∨ pool.runs? w = some true ∧ excused w
    rw [hsame]
    exact h.idle w hw.1
  rcases releaseVm_cases hrelease with ⟨-, rfl⟩ | ⟨host, pool, hdone, rfl⟩
  · exact ⟨hqueue, hleft sim.pool fun _ _ => rfl⟩
  · obtain ⟨-, hafter⟩ := Pool.release_placement hdone
    have hothers : ∀ w, w ≠ v → pool.runs? w = sim.pool.runs? w :=
      fun w hw => Pool.runs?_of_placement ((hafter w).trans (if_neg hw))
    have hwaits := hleft pool hothers
    exact ⟨hqueue, hwaits.nodup, hwaits.idle⟩

theorem Waits.placeVm (h : Waits excused sim) (own : sim.pool.Ownership) {v : VmId}
    {answer : Except PlacementError HostId} (hplace : (sim.placeVm v).result = .ok (answer, sim'))
    (hexcused : ∀ host, answer = .ok host → v ∈ sim.pending.toList → excused v) :
    sim'.pending.toList = sim.pending.toList ∧ Waits excused sim' := by
  rcases placeVm_cases hplace with ⟨host, pool, hanswer, hallocate, rfl⟩ | ⟨error, -, rfl⟩
  · obtain ⟨-, hafter⟩ := Pool.allocate_runs? own hallocate
    refine ⟨rfl, h.nodup, fun w hw => ?_⟩
    change pool.runs? w = some false ∨ pool.runs? w = some true ∧ excused w
    rw [hafter]
    by_cases heq : w = v
    · subst heq
      exact .inr ⟨if_pos rfl, hexcused host hanswer hw⟩
    · rw [if_neg heq]
      exact h.idle w hw
  · exact ⟨rfl, h⟩

/-- A VM whose turn it is to be tried again has not been put in the queue by those before it. What
has landed changes hosts of VMs, but neither which VMs run nor which ones wait. -/
theorem Waits.not_mem_of_retried (h : Waits excused sim) {landed between : Simulation α π}
    (hsame : sim.SameWaiting landed) (own : landed.pool.Ownership) {time : α}
    {earlier later : List VmId} {v : VmId} (hqueue : sim.pending.toList = earlier ++ v :: later)
    (hretry : (Logged.fold retry { landed with time, pending := .empty } earlier).result
      = .ok between) : v ∉ between.pending.toList := by
  intro hmem
  have hnodup := h.nodup
  rw [hqueue] at hnodup
  have hknown : ∀ w ∈ earlier, landed.pool.runs? w ≠ none := by
    intro w hw
    rw [hsame.runs]
    exact h.ne_none (hqueue ▸ List.mem_append_left _ hw)
  have own' : ({ landed with time, pending := .empty } : Simulation α π).pool.Ownership := own
  rw [pending_fold_retry own' (List.nodup_append.mp hnodup).1 hknown hretry, List.mem_append]
    at hmem
  rcases hmem with hmem | hmem
  · cases hmem
  · have hmem := List.mem_of_mem_filter hmem
    exact (List.nodup_append.mp hnodup).2.2 v hmem v List.mem_cons_self rfl

theorem ownership_of_landUntil (own : sim.pool.Ownership) {time : α}
    (h : (sim.landUntil time).result = .ok sim') : sim'.pool.Ownership := by
  have hsteps : Pool.Steps (Pool.Op.AsksFor fun _ => True) sim.pool sim'.pool :=
    ((traces_landUntil sim time).moves h).pool_steps
  exact own.of_steps (fun _ => trivial) (fun _ => trivial) hsteps

variable [KeepsLedger α π]

theorem Waits.step (h : Waits excused sim) (own : sim.pool.Ownership)
    (hstep : sim.step.result = .ok sim') :
    sim'.pending.toList = sim.queueAfter sim'.pool .step ∧ Waits excused sim' := by
  obtain ⟨landed, retried, last, hlanded, hretried, hlast, rfl⟩ := step_cases hstep
  have hland := SameWaiting.landUntil hlanded
  obtain ⟨hkeys, hwaits⟩ := h.same hland
  have hown := ownership_of_landUntil own hlanded
  have hown' : ({ landed with
      time := sim.time + sim.config.stepInterval
      pending := .empty } : Simulation α π).pool.Ownership :=
    hown
  obtain ⟨hretriedOwn, -, hon⟩ := runs?_of_fold_retry hown' hretried
  have hqueue := pending_fold_retry hown' hwaits.nodup (fun v hv => hwaits.ne_none hv) hretried
  have hpass : retried.SameWaiting last := by
    rcases hlast with rfl | ⟨started, hoptimize⟩
    · exact .refl _
    · exact .optimize hretriedOwn hoptimize
  have hruns : ∀ v, landed.pool.runs? v = sim.pool.runs? v := hland.runs
  have hend : last.meterPower.pending.toList = sim.queueAfter last.meterPower.pool .step := by
    change last.pending.toList = _
    rw [hpass.pending, hqueue, hkeys, queueAfter]
    refine List.filter_congr fun v _ => ?_
    simp only [hruns, hpass.runs, pool_meterPower]
  refine ⟨hend, hend ▸ h.nodup_queueAfter own _ _, fun v hv => ?_⟩
  rw [hend, queueAfter, List.mem_filter, decide_eq_true_eq] at hv
  obtain ⟨hmem, hrunning | hidle⟩ := hv
  · -- It ran before already, and runs on.
    have hexcused : excused v := by
      rcases h.idle v hmem with hr | ⟨-, he⟩
      · rw [hrunning] at hr
        cases hr
      · exact he
    have hnow : last.pool.runs? v = some true := by
      rw [hpass.runs]
      exact hon v ((hruns v).trans hrunning)
    exact .inr ⟨hnow, hexcused⟩
  · exact .inl hidle

theorem Waits.obey (h : Waits excused sim) (own : sim.pool.Ownership) {command : Command α}
    (hexcused : ∀ v host next, command = .placeVm v → v ∈ sim.pending.toList →
      (sim.placeVm v).result = .ok (.ok host, next) → excused v)
    (hobey : (sim.obey command).result = .ok sim') :
    sim'.pending.toList = sim.queueAfter sim'.pool command ∧ Waits excused sim' := by
  cases command with
  | addHost spec =>
    obtain ⟨id, hadd⟩ := Logged.exists_of_snd hobey
    obtain ⟨pool, hpool, rfl⟩ := addHost_cases hadd
    obtain ⟨-, -, rfl⟩ := (Pool.addHost_eq_ok_iff _ _ _ _).mp hpool
    exact h.same ⟨rfl, fun _ => rfl⟩
  | submitVm spec =>
    obtain ⟨v, hsubmit⟩ := Logged.exists_of_snd hobey
    exact h.submitVm own hsubmit
  | placeVm v =>
    obtain ⟨answer, hplace⟩ := Logged.exists_of_snd hobey
    refine h.placeVm own hplace fun host hanswer hv => ?_
    rw [hanswer] at hplace
    exact hexcused v host sim' rfl hv hplace
  | releaseVm v =>
    obtain ⟨answer, hrelease⟩ := Logged.exists_of_snd hobey
    exact h.releaseVm hrelease
  | updateVmMips v mips =>
    obtain ⟨answer, hresize⟩ := Logged.exists_of_snd hobey
    rcases updateVmMips_cases hresize with rfl | ⟨pool, hdone, rfl⟩
    · exact h.same (.refl _)
    · exact h.same ⟨rfl, fun w => Pool.runs?_of_placement (Pool.updateVmMips_placement hdone w)⟩
  | applyPlan plan =>
    obtain ⟨answer, happly⟩ := Logged.exists_of_snd hobey
    exact h.same (.applyPlan own happly)
  | optimize =>
    obtain ⟨started, hoptimize⟩ := Logged.exists_of_snd hobey
    exact h.same (.optimize own hoptimize)
  | step => exact h.step own hobey

/-! ### Runs -/

/-- A command of the run places the VM while it waits. -/
def PlacedWaiting (start : Simulation α π) (commands : List (Command α)) (v : VmId) : Prop :=
  ∃ before after sim host next, commands = before ++ .placeVm v :: after
    ∧ (start.run before).result = .ok sim ∧ v ∈ sim.pending.toList
    ∧ (sim.placeVm v).result = .ok (.ok host, next)

omit [AllocationPolicy α π] [KeepsLedger α π] in
theorem placed_add_pending_le (hnodup : sim.pending.toList.Nodup)
    (h : ∀ v ∈ sim.pending.toList, sim.pool.runs? v = some false) :
    sim.summary.placedVms + sim.summary.pendingVms ≤ sim.summary.vms := by
  have hplaced : sim.summary.placedVms
      = (sim.pool.vms.entries.filter fun e => e.2.host.isSome).length := by
    rw [summary, Table.values_eq, List.filter_map, List.length_map]
    rfl
  have hpending : sim.summary.pendingVms = sim.pending.toList.length :=
    Queue.size_eq_length sim.pending
  have hvms : sim.summary.vms = (sim.pool.vms.entries.filter fun e => e.2.host.isSome).length
      + (sim.pool.vms.entries.filter fun e => !e.2.host.isSome).length := by
    rw [← List.length_eq_length_filter_add, ← Table.size_eq]
    rfl
  have hsubset : sim.pending.toList
      ⊆ (sim.pool.vms.entries.filter fun e => !e.2.host.isSome).map Prod.fst := by
    intro v hv
    obtain ⟨vm, hget, hhost⟩ := (Pool.runs?_eq_some_false_iff _ _).mp (h v hv)
    refine List.mem_map.mpr ⟨(v, vm), List.mem_filter.mpr ⟨?_, by simp [hhost]⟩, rfl⟩
    exact (Table.mem_entries_iff _ _ _).mpr hget
  have hle := (List.subperm_of_subset hnodup hsubset).length_le
  rw [List.length_map] at hle
  omega

theorem waits_of_run {start : Simulation α π} (hr : start.pool.Reachable)
    (hempty : start.pending.toList = []) {commands : List (Command α)}
    (h : (start.run commands).result = .ok sim) :
    sim.pool.Reachable ∧ Waits (start.PlacedWaiting commands) sim := by
  have hstart : Waits (start.PlacedWaiting commands) start := by
    refine ⟨hempty ▸ List.nodup_nil, fun v hv => ?_⟩
    rw [hempty] at hv
    cases hv
  refine run_invariant (P := fun last => last.pool.Reachable
    ∧ Waits (start.PlacedWaiting commands) last) ⟨hr, hstart⟩ ?_ h
  intro before command after sim next hcommands hbefore hsim hnext
  obtain ⟨hreach, hwaits⟩ := hsim
  have hsteps := ((traces_obey sim command.asksFor_any).moves hnext).pool_steps
  refine ⟨hsteps.reachable hreach, (hwaits.obey hreach.ownership ?_ hnext).2⟩
  intro v host placed hcommand hv hplace
  exact ⟨before, after, sim, host, placed, hcommand ▸ hcommands, hbefore, hv, hplace⟩

/-- The pool is reachable, and the VMs that wait are in it, whether they run or not. -/
structure Queued (sim : Simulation α π) : Prop where
  reachable : sim.pool.Reachable
  waits : Waits (fun _ => True) sim

theorem Queued.obey (h : sim.Queued) {command : Command α}
    (hobey : (sim.obey command).result = .ok sim') :
    sim'.pending.toList = sim.queueAfter sim'.pool command ∧ sim'.Queued := by
  have hsteps := ((traces_obey sim command.asksFor_any).moves hobey).pool_steps
  obtain ⟨hqueue, hwaits⟩ :=
    h.waits.obey h.reachable.ownership (fun _ _ _ _ _ _ => trivial) hobey
  exact ⟨hqueue, hsteps.reachable h.reachable, hwaits⟩

omit [AllocationPolicy α π] [KeepsLedger α π] in
theorem queued_create (config : Config α) (policy : π) (id : Nat) :
    (create config policy id).Queued :=
  ⟨.refl _, List.nodup_nil, fun _ hv => absurd hv List.not_mem_nil⟩

theorem queued_of_run {start : Simulation α π} (hstart : start.Queued)
    {commands : List (Command α)} (h : (start.run commands).result = .ok sim) : sim.Queued := by
  refine run_invariant (P := Queued) hstart ?_ h
  intro before command after state next _ _ hstate hnext
  exact (hstate.obey hnext).2

/-- Each waiting VM is in the pool and runs nowhere, unless it was placed directly while it waited.
If no VM was, at most all VMs wait or are placed. The queue keeps its order, and no VM is put in it
that waits already, be it a new one or, once migrations have landed, one that is tried again. -/
theorem waiting_vms_run_nowhere {config : Config α} {policy : π} {id : Nat}
    {commands : List (Command α)}
    (h : ((create config policy id).run commands).result = .ok sim) :
    (∀ v ∈ sim.pending.toList, ∃ vm, sim.pool.vms.get? v = some vm
      ∧ (vm.host = none ∨ (create config policy id).PlacedWaiting commands v))
    ∧ ((∀ v, ¬(create config policy id).PlacedWaiting commands v) →
      sim.summary.placedVms + sim.summary.pendingVms ≤ sim.summary.vms)
    ∧ sim.pending.toList.Nodup
    ∧ (∀ command next, (sim.obey command).result = .ok next →
      next.pending.toList = sim.queueAfter next.pool command)
    ∧ sim.pool.nextVm ∉ sim.pending.toList
    ∧ ∀ landed, (landed = sim ∨ ∃ limit, (sim.landUntil limit).result = .ok landed) →
      ∀ time earlier v later between, sim.pending.toList = earlier ++ v :: later →
      (Logged.fold retry { landed with time, pending := .empty } earlier).result = .ok between →
      v ∉ between.pending.toList := by
  have hempty : (create config policy id).pool.Reachable := .refl _
  obtain ⟨hr, hwaits⟩ := waits_of_run hempty rfl h
  have own := hr.ownership
  refine ⟨fun v hv => ?_, fun hnone => ?_, hwaits.nodup, fun command next hnext => ?_,
    hwaits.nextVm_not_mem own,
    fun landed hlanded time earlier v later between hqueue hretry => ?_⟩
  · rcases hwaits.idle v hv with hidle | ⟨hruns, hplaced⟩
    · obtain ⟨vm, hget, hhost⟩ := (Pool.runs?_eq_some_false_iff _ _).mp hidle
      exact ⟨vm, hget, .inl hhost⟩
    · obtain ⟨vm, hget, -⟩ := Option.map_eq_some_iff.mp hruns
      exact ⟨vm, hget, .inr hplaced⟩
  · refine placed_add_pending_le hwaits.nodup fun v hv => ?_
    rcases hwaits.idle v hv with hidle | ⟨-, hplaced⟩
    · exact hidle
    · exact absurd hplaced (hnone v)
  · have hany : Waits (fun _ => True) sim :=
      ⟨hwaits.nodup, fun v hv => (hwaits.idle v hv).imp_right fun hr => ⟨hr.1, trivial⟩⟩
    exact (hany.obey own (fun _ _ _ _ _ _ => trivial) hnext).1
  · rcases hlanded with rfl | ⟨limit, hland⟩
    · exact hwaits.not_mem_of_retried (.refl _) own hqueue hretry
    · exact hwaits.not_mem_of_retried (.landUntil hland) (ownership_of_landUntil own hland) hqueue
        hretry

/-- Two VMs find no host. Then there is one, and a step places the VM that fits. -/
def patientRun : List (Command Float) :=
  let vm (mips : Float) : VmSpec Float := ⟨"tenant", 1, mips, 1024, 100, 1000⟩
  [.submitVm (vm 9000), .submitVm (vm 500),
    .addHost ⟨"host", 4, 1000, 8192, 1000, 100000, .linear 200 0.5⟩, .step]

theorem patientRun_waits : ∃ sim, (busyStart.run patientRun).result = .ok sim
    ∧ sim.pending.toList = [0] ∧ sim.pool.placement 1 = some ⟨some 0, none⟩
    ∧ (∀ v ∈ sim.pending.toList, ∃ vm, sim.pool.vms.get? v = some vm
      ∧ (vm.host = none ∨ busyStart.PlacedWaiting patientRun v))
    ∧ sim.pool.nextVm ∉ sim.pending.toList := by
  have hrun : ((busyStart.run patientRun).result.toOption.any fun sim =>
      sim.pending.toList == [0] && sim.pool.placement 1 == some ⟨some 0, none⟩) = true := by
    decide +kernel
  obtain ⟨sim, hsim, htest⟩ := Checked.eq_ok_of_any hrun
  rw [Bool.and_eq_true, beq_iff_eq, beq_iff_eq] at htest
  obtain ⟨hunplaced, -, -, -, hnew, -⟩ := waiting_vms_run_nowhere hsim
  exact ⟨sim, hsim, htest.1, htest.2, hunplaced, hnew⟩

/-- A VM finds no host, and is placed directly as soon as there is one. -/
def impatientRun : List (Command Float) :=
  [.submitVm ⟨"tenant", 1, 500, 1024, 100, 1000⟩,
    .addHost ⟨"host", 4, 1000, 8192, 1000, 100000, .linear 200 0.5⟩, .placeVm 0]

/-- The placed VM waits on, also after a step. -/
theorem impatientRun_waits_on : ∃ sim sim', (busyStart.run impatientRun).result = .ok sim
    ∧ sim.pending.toList = [0] ∧ sim.pool.placement 0 = some ⟨some 0, none⟩
    ∧ sim.summary.vms < sim.summary.placedVms + sim.summary.pendingVms
    ∧ sim.step.result = .ok sim' ∧ sim'.pending.toList = [0]
    ∧ sim'.pool.placement 0 = some ⟨some 0, none⟩ := by
  have hrun : ((busyStart.run impatientRun).result.toOption.any fun sim =>
      sim.pending.toList == [0] && sim.pool.placement 0 == some ⟨some 0, none⟩
        && decide (sim.summary.vms < sim.summary.placedVms + sim.summary.pendingVms)
        && sim.step.result.toOption.any fun sim' =>
          sim'.pending.toList == [0] && sim'.pool.placement 0 == some ⟨some 0, none⟩) = true := by
    decide +kernel
  obtain ⟨sim, hsim, htest⟩ := Checked.eq_ok_of_any hrun
  simp only [Bool.and_eq_true, beq_iff_eq, decide_eq_true_eq] at htest
  obtain ⟨⟨⟨hkeys, hplaced⟩, hmany⟩, hstep⟩ := htest
  obtain ⟨sim', hsim', hafter⟩ := Checked.eq_ok_of_any hstep
  rw [Bool.and_eq_true, beq_iff_eq, beq_iff_eq] at hafter
  exact ⟨sim, sim', hsim, hkeys, hplaced, hmany, hsim', hafter⟩

end Simulation

end Datacenter
