import Datacenter.Proofs.Destinations
import Datacenter.Proofs.PlanTracking

/-!
# Emptying a host

While a planner plans, its tally projects on each host at least what ends up there. A consolidation
is given out if the projection of its source has no memory left and next to no compute rate. So what
it leaves behind asks for no memory, and for next to no compute rate altogether: such a VM may stay,
whatever bandwidth and storage it has, and the plan is given out nevertheless.

Main statements: `Planned.foresees`, `consolidate_bound` and `consolidate_leaves_little`.
-/

namespace Datacenter.Planner

variable {α M : Type}

/-- The host that the VM runs on once all migrations have landed, those of the list included. -/
def destination (ms : List (Migration α)) (v : VmId) (vm : Vm α) : Option HostId :=
  ((ms.find? (·.vm = v)).map (·.target)).or vm.destination

theorem find?_eq_none_of_not_mem {ms : List (Migration α)} {v : VmId} (h : ∀ m ∈ ms, m.vm ≠ v) :
    ms.find? (·.vm = v) = none :=
  List.find?_eq_none.mpr fun m hm => by simpa using h m hm

theorem destination_of_not_mem {ms : List (Migration α)} {v : VmId} (h : ∀ m ∈ ms, m.vm ≠ v)
    (vm : Vm α) : destination ms v vm = vm.destination := by
  rw [destination, find?_eq_none_of_not_mem h, Option.map_none, Option.none_or]

theorem destination_append (ms : List (Migration α)) (m : Migration α) {v : VmId} (hv : v ≠ m.vm)
    (vm : Vm α) : destination (ms ++ [m]) v vm = destination ms v vm := by
  have hlast : [m].find? (·.vm = v) = none := by simpa using hv.symm
  rw [destination, List.find?_append, hlast, Option.or_none, destination]

theorem destination_append_self {ms : List (Migration α)} {m : Migration α}
    (h : ∀ x ∈ ms, x.vm ≠ m.vm) (vm : Vm α) :
    destination (ms ++ [m]) m.vm vm = some m.target := by
  rw [destination, List.find?_append, find?_eq_none_of_not_mem h]
  simp

theorem destination_of_staysOn {ms : List (Migration α)} {pool : Pool α} {h : HostId} {v : VmId}
    {vm : Vm α} (hv : pool.vms.get? v = some vm) (hstays : pool.StaysOn h v)
    (hms : ∀ m ∈ ms, m.vm ≠ v) : destination ms v vm = some h := by
  obtain ⟨record, hrecord, hhost, hm⟩ := hstays
  rw [hv, Option.some.injEq] at hrecord
  subst hrecord
  rw [destination_of_not_mem hms, Vm.destination, hm, hhost, Option.none_or]

variable [Scalar α]

/-! ### Projections -/

section

variable [AddCommMonoid M] [PartialOrder M] {f : Resources α → M} {p p' : Outlook α}
  {done ms : List (Migration α)} {m : Migration α}

/-- Projections are at least what ends up on hosts, once what is done so far has landed. -/
structure Foresees (p : Outlook α) (done : List (Migration α)) (f : Resources α → M) : Prop where
  planned : ∀ m ∈ done, p.plannedVms.contains m.vm = true
  load : ∀ h host load, p.pool.hosts.get? h = some host → p.view h = .ok load →
    p.pool.sumAt f (destination done) h ≤ f load.projected

variable [IsOrderedCancelAddMonoid M]

theorem Foresees.start (hf : Resources.IsAmount f) {pool : Pool α} (hr : pool.Reachable)
    (hc : pool.AllHosts fun host => host.Covers f) (id : Nat) :
    Foresees (Planner.start pool id).outlook [] f := by
  rw [outlook_start]
  refine ⟨fun _ hm => (nomatch hm), fun h host load hh hl => ?_⟩
  simp only [PlannedLoad.current, Checked.bind_eq_ok_iff, Checked.pure_eq_ok,
    Except.ok.injEq] at hl
  obtain ⟨projected, hprojected, _, -, committed, -, rfl⟩ := hl
  exact hr.destined_le_planningLoad hf hh (hc h host hh) hprojected

/-- The demand leaves the projection of the source, of which it is a part, for that of the
target. -/
theorem Foresees.step (hf : Resources.IsAmount f) (hd : Foresees p done f) (hs : p.Step m p') :
    Foresees p' (done ++ [m]) f := by
  have hother : ∀ x ∈ done, x.vm ≠ m.vm := by
    intro x hx heq
    have hplanned := hd.planned x hx
    rw [heq, hs.unplanned] at hplanned
    cases hplanned
  obtain ⟨vm, hv, -⟩ := hs.stays
  have hbefore := destination_of_staysOn hv hs.stays hother
  have hafter := destination_append_self hother vm
  obtain ⟨left, taken, projected, committed, hleft, htaken, hprojected, -, hload⟩ :=
    moveDemand_eq_ok hs.ne (hs.view vm hv)
  refine ⟨fun x hx => ?_, fun h host load hh hl => ?_⟩
  · rw [hs.plannedVms, Std.TreeSet.contains_insert, Bool.or_eq_true]
    rcases List.mem_append.mp hx with hx | hx
    · exact .inr (hd.planned x hx)
    · rw [List.mem_singleton.mp hx]
      exact .inl (by simp)
  · rw [hs.pool] at hh ⊢
    have hsum := Pool.sumAt_change f hv
      (fun w record hw => destination_append done m hw record) h
    simp only [hbefore, hafter, Option.some.injEq] at hsum
    rw [hload] at hl
    by_cases htarget : h = m.target
    · have hle := hd.load h host taken hh (htarget ▸ htaken)
      rw [if_pos htarget, Except.ok.injEq] at hl
      subst hl
      rw [if_neg (htarget ▸ hs.ne), if_pos htarget.symm, add_zero] at hsum
      rw [hsum, hf.add hprojected]
      exact add_le_add_left hle _
    · rw [if_neg htarget] at hl
      rw [if_neg (Ne.symm htarget), add_zero] at hsum
      by_cases hsource : h = m.source
      · have hle := hd.load h host left hh (hsource ▸ hleft)
        rw [if_pos hsource, Except.ok.injEq] at hl
        subst hl
        rw [if_pos hsource.symm] at hsum
        rw [← hsum] at hle
        exact le_of_add_le_add_right (le_trans hle (hf.le_sub left.projected vm.demand))
      · rw [if_neg hsource] at hl
        rw [if_neg (Ne.symm hsource), add_zero] at hsum
        rw [hsum]
        exact hd.load h host load hh hl

theorem Planned.foresees (hf : Resources.IsAmount f) (h : Planned p ms p')
    (hd : Foresees p done f) : Foresees p' (done ++ ms) f := by
  induction h generalizing done with
  | nil =>
    rw [List.append_nil]
    exact hd
  | cons hs _ ih =>
    rw [← List.singleton_append, ← List.append_assoc]
    exact ih (hd.step hf hs)

end

/-! ### What a consolidation leaves -/

variable {p p' : Planner α} {source : HostId} {targets : List HostId}
  {excluded : Std.TreeSet HostId} {upper : α} {ms : List (Migration α)}

theorem consolidate_remaining (h : p.consolidate source targets excluded upper = .ok (ms, p'))
    (hne : ms ≠ []) :
    ∃ host load, p.pool.hosts.get? source = some host ∧ p'.outlook.view source = .ok load
      ∧ ¬Scalar.epsilon < load.projected.mips ∧ load.projected.ram = 0 := by
  rcases consolidate_cases h with ⟨hnil, -⟩ | ⟨_, host, load, _, -, hh, -, hsame, hload, hlittle⟩
  · exact absurd hnil hne
  · exact ⟨host, load, hh, hsame ▸ hload, hlittle⟩

/-- What ends up on the source of a consolidation that plans something, all answers of the planner
included, is at most what remains projected there. -/
theorem consolidate_bound [AddCommMonoid M] [PartialOrder M] [IsOrderedCancelAddMonoid M]
    {f : Resources α → M} (hf : Resources.IsAmount f) {pool : Pool α} (hr : pool.Reachable)
    (hc : pool.AllHosts fun host => host.Covers f) {id : Nat} {calls : List (Call α)}
    {plans : List (List (Migration α))}
    (hcalls : (Planner.start pool id).answers calls = .ok (plans, p))
    (h : p.consolidate source targets excluded upper = .ok (ms, p')) (hne : ms ≠ []) :
    ∃ remaining : Resources α, ¬Scalar.epsilon < remaining.mips ∧ remaining.ram = 0
      ∧ pool.sumAt f (destination (plans.flatten ++ ms)) source ≤ f remaining := by
  have hplanned := (answers_planned hr.ownership hcalls).1
  have hpool : p.pool = pool := hplanned.pool_eq
  have hmore := (consolidate_planned (hpool ▸ hr.ownership) h).1
  have hforesees := (hplanned.append hmore).foresees hf (Foresees.start hf hr hc id)
  rw [List.nil_append] at hforesees
  obtain ⟨host, load, hh, hload, hmips, hram⟩ := consolidate_remaining h hne
  have hpool' : p'.outlook.pool = pool := hmore.pool_eq.trans hpool
  have hle := hforesees.load source host load (by rw [hpool', ← hpool]; exact hh) hload
  rw [hpool'] at hle
  exact ⟨load.projected, hmips, hram, hle⟩

theorem ram_eq_zero_of_sumAt_le {pool : Pool α} {place : VmId → Vm α → Option HostId} {h : HostId}
    {remaining : Resources α} (hram : remaining.ram = 0)
    (hle : pool.sumAt (fun d => d.stock .memory) place h ≤ remaining.stock .memory) {v : VmId}
    {vm : Vm α} (hv : pool.vms.get? v = some vm) (hplace : place v vm = some h) : vm.ram = 0 := by
  have hone := Table.le_total
    (f := fun v vm => if place v vm = some h then vm.demand.stock .memory else 0)
    (fun _ _ _ => Nat.zero_le _) hv
  rw [if_pos hplace] at hone
  have hzero : vm.ram.toNat ≤ remaining.ram.toNat := le_trans hone hle
  rw [hram, UInt64.toNat_zero, Nat.le_zero] at hzero
  exact UInt64.toNat_inj.mp hzero

/-- The compute rates that end up on the source add up to no more than the tolerance. -/
theorem consolidate_leaves_little {K : Type} [ExactScalar K] {pool : Pool K} (hr : pool.Reachable)
    {id : Nat} {calls : List (Call K)} {plans : List (List (Migration K))} {p p' : Planner K}
    (hcalls : (Planner.start pool id).answers calls = .ok (plans, p)) {upper : K}
    {ms : List (Migration K)} (h : p.consolidate source targets excluded upper = .ok (ms, p'))
    (hne : ms ≠ []) :
    pool.sumAt (fun d => d.mips) (destination (plans.flatten ++ ms)) source
      ≤ Scalar.epsilon := by
  obtain ⟨remaining, hmips, -, hle⟩ :=
    consolidate_bound Resources.isAmount_mips hr hr.covers_mips hcalls h hne
  exact le_trans hle (le_of_not_gt hmips)

/-- A consolidation that plans something plans each VM once, and only VMs that stay on the source
and were not planned before. All that is left on the source or comes to it asks for no memory: every
VM with memory that stays there unplanned is planned, and none is expected. -/
theorem consolidate_leaves_no_memory {pool : Pool α} (hr : pool.Reachable) {id : Nat}
    {calls : List (Call α)} {plans : List (List (Migration α))}
    (hcalls : (Planner.start pool id).answers calls = .ok (plans, p))
    (h : p.consolidate source targets excluded upper = .ok (ms, p')) (hne : ms ≠ []) :
    (ms.map (·.vm)).Nodup
      ∧ (∀ m ∈ ms, m.source = source ∧ pool.StaysOn source m.vm
        ∧ p.plannedVms.contains m.vm = false)
      ∧ (∀ v vm, pool.vms.get? v = some vm →
        destination (plans.flatten ++ ms) v vm = some source → vm.ram = 0)
      ∧ (∀ v vm, pool.vms.get? v = some vm → vm.ram ≠ 0 → pool.StaysOn source v →
        p.plannedVms.contains v = false → v ∈ ms.map (·.vm))
      ∧ ∀ v vm, pool.vms.get? v = some vm → vm.ram ≠ 0 → vm.migrationTarget ≠ some source := by
  have own := hr.ownership
  have hplanned := (answers_planned own hcalls).1
  have hpool : p.pool = pool := hplanned.pool_eq
  obtain ⟨hmore, hfollows⟩ := consolidate_planned (hpool ▸ own) h
  have hall := hplanned.append hmore
  have hcovers : pool.AllHosts fun host => host.Covers fun d => d.stock .memory :=
    fun h host hh => (hr.balanced h host hh).covers_stock .memory
  have hforesees := hplanned.foresees (Resources.isAmount_stock .memory)
    (Foresees.start (Resources.isAmount_stock .memory) hr hcovers id)
  have hleft : ∀ v vm, pool.vms.get? v = some vm →
      destination (plans.flatten ++ ms) v vm = some source → vm.ram = 0 := by
    intro v vm hv hdestination
    obtain ⟨remaining, -, hram, hle⟩ :=
      consolidate_bound (Resources.isAmount_stock .memory) hr hcovers hcalls h hne
    exact ram_eq_zero_of_sumAt_le hram hle hv hdestination
  refine ⟨hmore.nodup.1, fun m hm => ?_, hleft, fun v vm hv hne hstays hun => ?_,
    fun v vm hv hne htarget => hne (hleft v vm hv ?_)⟩
  · have hsource := (hfollows m hm).source
    have hstays := (hmore.suits m hm).stays
    rw [hsource] at hstays
    exact ⟨hsource, hpool ▸ hstays, hmore.nodup.2 m hm⟩
  · -- An unplanned VM with memory would be left on the source.
    by_contra hmem
    refine hne (hleft v vm hv (destination_of_staysOn hv hstays ?_))
    intro m hm heq
    rcases List.mem_append.mp hm with hm | hm
    · have hbefore : p.plannedVms.contains m.vm = true := hforesees.planned m hm
      rw [heq, hun] at hbefore
      cases hbefore
    · exact hmem (List.mem_map.mpr ⟨m, hm, heq⟩)
  · rw [destination_of_not_mem, Vm.destination, htarget, Option.some_or]
    -- What is planned does not migrate.
    intro m hm heq
    obtain ⟨record, hrecord, -, hstays⟩ := (hall.suits m hm).stays
    rw [heq] at hrecord
    have hsame := hv.symm.trans hrecord
    rw [Option.some.injEq] at hsame
    rw [← hsame, htarget] at hstays
    cases hstays

/-- The first host runs a VM that needs nothing but bandwidth. The second host has little of it. -/
def memorylessRun : List (Pool.Op Float) :=
  let host (bandwidth : UInt64) : HostSpec Float :=
    ⟨"host", 4, 1000, 8192, bandwidth, 100000, .linear 200 0.5⟩
  [.addHost (host 1000), .addHost (host 250), .addHost (host 1000),
    .addVm ⟨"tenant", 2, 500, 1024, 100, 1000⟩, .addVm ⟨"tenant", 2, 0, 0, 500, 1000⟩,
    .addVm ⟨"tenant", 1, 300, 512, 100, 1000⟩, .allocate 0 0, .allocate 1 0, .allocate 2 2]

theorem memorylessRun_leaves_one : ∃ pool plans p ms p', Pool.empty.run memorylessRun = .ok pool
    ∧ pool.Reachable
    ∧ (Planner.start pool 7).answers [.consolidate 2 [1] ∅ 0.8] = .ok (plans, p)
    ∧ p.consolidate 0 [1] ∅ 0.8 = .ok (ms, p')
    ∧ plans.map (fun ms => ms.map (·.vm)) = [[2]] ∧ ms.map (·.vm) = [0]
    ∧ ∀ v vm, pool.vms.get? v = some vm →
      destination (plans.flatten ++ ms) v vm = some 0 → vm.ram = 0 := by
  have hrun : (Pool.empty.run memorylessRun).toOption.any (fun pool =>
      ((Planner.start pool 7).answers [.consolidate 2 [1] ∅ 0.8]).toOption.any fun r =>
        r.1.map (fun ms => ms.map (·.vm)) == [[2]]
          && (r.2.consolidate 0 [1] ∅ 0.8).toOption.any fun last =>
            last.1.map (·.vm) == [0]) = true := by
    decide +kernel
  obtain ⟨pool, hp, hanswers⟩ := Checked.eq_ok_of_any hrun
  obtain ⟨⟨plans, p⟩, hcalls, htest⟩ := Checked.eq_ok_of_any hanswers
  rw [Bool.and_eq_true] at htest
  obtain ⟨⟨ms, p'⟩, hlast, hvms⟩ := Checked.eq_ok_of_any htest.2
  have hr := Pool.reachable_of_run hp
  have hne : ms ≠ [] := by
    rintro rfl
    cases hvms
  obtain ⟨-, -, hleft, -⟩ := consolidate_leaves_no_memory hr hcalls hlast hne
  exact ⟨pool, plans, p, ms, p', hp, hr, hcalls, hlast, beq_iff_eq.mp htest.1,
    beq_iff_eq.mp hvms, hleft⟩

/-- A consolidation can plan something and leave a VM on the source that could have been planned. -/
theorem memorylessRun_not_emptied : ∃ pool ms p', Pool.empty.run memorylessRun = .ok pool
    ∧ pool.Reachable ∧ (Planner.start pool 7).consolidate 0 [1] ∅ 0.8 = .ok (ms, p')
    ∧ ms ≠ [] ∧ pool.StaysOn 0 1 ∧ (Planner.start pool 7).plannedVms.contains 1 = false
    ∧ 1 ∉ ms.map (·.vm) := by
  have hrun : (Pool.empty.run memorylessRun).toOption.any (fun pool =>
      (pool.vms.get? 1).any (fun vm => vm.host == some 0 && vm.migrationTarget == none)
        && ((Planner.start pool 7).consolidate 0 [1] ∅ 0.8).toOption.any fun r =>
          r.1.map (·.vm) == [0]) = true := by
    decide +kernel
  obtain ⟨pool, hp, htest⟩ := Checked.eq_ok_of_any hrun
  rw [Bool.and_eq_true] at htest
  obtain ⟨⟨ms, p'⟩, hplan, hvms⟩ := Checked.eq_ok_of_any htest.2
  have hstays := htest.1
  simp only [Option.any_eq_true, Bool.and_eq_true, beq_iff_eq] at hstays
  rw [beq_iff_eq] at hvms
  refine ⟨pool, ms, p', hp, Pool.reachable_of_run hp, hplan, ?_, hstays, ?_, ?_⟩
  · rintro rfl
    cases hvms
  · rw [Planner.start]
    exact Std.TreeSet.contains_emptyc
  · rw [hvms]
    decide

end Datacenter.Planner
