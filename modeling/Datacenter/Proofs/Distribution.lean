import Datacenter.Proofs.Burdens
import Datacenter.Proofs.PlannerFaults
import Datacenter.Proofs.TargetLoads

/-!
# What distribution leaves behind

VMs are tried once, in order, while the targets fill up. A target that refuses a VM refuses it under
more load as well, and all that is planned for the source only adds to the loads of the targets. So
unless the source is relieved, no target has room for a VM that stays on it.

Main statements: `Tally.View.refuses_heavier`, `Distributes.leaves` and `distribute_gives_up`.
-/

namespace Datacenter

variable {K : Type} [ExactScalar K]

/-! ### Loads in order -/

/-- No resource is less in the second amount. -/
structure Resources.AtMost (a b : Resources K) : Prop where
  mips : a.mips ≤ b.mips
  stock : ∀ k, a.stock k ≤ b.stock k

/-- The second load has at least as much projected and committed. -/
structure PlannedLoad.AtMost (load load' : PlannedLoad K) : Prop where
  projected : load.projected.AtMost load'.projected
  committed : load.committed.AtMost load'.committed

namespace Resources.AtMost

variable {a b c d : Resources K}

theorem refl (a : Resources K) : a.AtMost a := ⟨le_rfl, fun _ => le_rfl⟩

theorem trans (hab : a.AtMost b) (hbc : b.AtMost c) : a.AtMost c :=
  ⟨hab.mips.trans hbc.mips, fun k => (hab.stock k).trans (hbc.stock k)⟩

theorem add (hd : 0 ≤ d.mips) (h : a.add d = .ok b) : a.AtMost b := by
  obtain ⟨hm, hs⟩ := (add_eq_ok_iff _ _ _).mp h
  refine ⟨?_, fun k => ?_⟩
  · rw [hm]
    exact le_add_of_nonneg_right hd
  · rw [hs]
    omega

end Resources.AtMost

namespace PlannedLoad.AtMost

variable {load load' load'' : PlannedLoad K}

theorem refl (load : PlannedLoad K) : load.AtMost load := ⟨.refl _, .refl _⟩

theorem trans (h : load.AtMost load') (h' : load'.AtMost load'') : load.AtMost load'' :=
  ⟨h.projected.trans h'.projected, h.committed.trans h'.committed⟩

end PlannedLoad.AtMost

/-! ### Refusals -/

namespace Tally.View

variable {view view' : View K} {pool : Pool K} {g : HostId} {host : Host K}
  {load load' : PlannedLoad K} {demand : Resources K} {upper : K}

theorem fits_eq_false (hl : view g = .ok load) (hh : pool.hosts.get? g = some host)
    (h : view.fits pool g demand upper = .ok false) :
    ∃ ram, addWords load.projected.ram demand.ram = .ok ram
      ∧ (upper ≤ (load.projected.mips + demand.mips) / host.totalMips
        ∨ upper ≤ Scalar.ofNat ram.toNat / Scalar.ofNat host.ram.toNat
        ∨ (host.capacity.sub load.committed).shortage demand ≠ none) := by
  rw [fits, hl, Checked.ok_bind, (Pool.host_eq_ok_iff _ _ _).mpr hh, Checked.ok_bind,
    PlannedLoad.fits, Checked.bind_eq_ok_iff] at h
  obtain ⟨ram, hram, h⟩ := h
  refine ⟨ram, hram, ?_⟩
  dsimp only at h
  split at h
  · rename_i hfull
    exact hfull.elim .inl fun hshare => .inr (.inl hshare)
  · rw [Checked.pure_eq_ok, Except.ok.injEq, Option.isNone_eq_false_iff,
      Option.isSome_iff_ne_none] at h
    exact .inr (.inr h)

/-- A host that has no room for a demand has none under more load. A host of a negative size has a
share of its compute capacity in use that falls with its load, but then its memory refuses. -/
theorem refuses_heavier (hh : pool.hosts.get? g = some host) (hl : view g = .ok load)
    (hl' : view' g = .ok load') (hle : load.AtMost load') (hload : 0 ≤ load.projected.mips)
    (hd : 0 ≤ demand.mips) (h : view.fits pool g demand upper = .ok false) :
    view'.fits pool g demand upper ≠ .ok true := by
  intro htrue
  obtain ⟨ram, hram, hrefused⟩ := fits_eq_false hl hh h
  obtain ⟨found, fhost, ram', hfound, hfhost, hram', hcpu, hshare, hshort⟩ :=
    Planner.fits_eq_true htrue
  rw [hl', Except.ok.injEq] at hfound
  rw [hh, Option.some.injEq] at hfhost
  subst hfound hfhost
  rw [not_le] at hcpu hshare
  rcases hrefused with hfull | hfull | hfull
  · rcases le_or_gt 0 host.totalMips with hpos | hneg
    · have hmips : load.projected.mips + demand.mips ≤ load'.projected.mips + demand.mips :=
        add_le_add_left hle.projected.mips _
      exact absurd (hfull.trans (div_le_div_of_nonneg_right hmips hpos)) (not_le.mpr hcpu)
    · have hupper : upper ≤ 0 :=
        hfull.trans (div_nonpos_of_nonneg_of_nonpos (add_nonneg hload hd) hneg.le)
      have hwords : (0 : K) ≤ Scalar.ofNat ram'.toNat / Scalar.ofNat host.ram.toNat :=
        div_nonneg (Nat.cast_nonneg _) (Nat.cast_nonneg _)
      exact absurd (hupper.trans hwords) (not_le.mpr hshare)
  · have hword : ram.toNat ≤ ram'.toNat := by
      rw [(addWords_eq_ok_iff _ _ _).mp hram, (addWords_eq_ok_iff _ _ _).mp hram']
      exact Nat.add_le_add_right (hle.projected.stock .memory) _
    have hshares : (Scalar.ofNat ram.toNat : K) / Scalar.ofNat host.ram.toNat
        ≤ Scalar.ofNat ram'.toNat / Scalar.ofNat host.ram.toNat :=
      div_le_div_of_nonneg_right (Nat.cast_le.mpr hword) (Nat.cast_nonneg _)
    exact absurd (hfull.trans hshares) (not_le.mpr hshare)
  · exact Resources.shortage_sub_ne_none hle.committed.mips hle.committed.stock hfull hshort

end Tally.View

/-! ### Distribution -/

namespace Planner

variable {p p' : Outlook K} {source g : HostId} {targets : List HostId} {upper : K}
  {vms : List VmId} {ms : List (Migration K)} {after : Pool K} {v : VmId}

theorem Planned.unplanned (h : Planned p ms p') (hv : p'.plannedVms.contains v = false) :
    p.plannedVms.contains v = false := by
  induction h with
  | nil => exact hv
  | cons hs _ ih => exact ((hs.unplanned_iff v).mp (ih hv)).2

/-- A host that is no source only takes on more. -/
theorem Planned.load_atMost (h : Planned p ms p') (hn : p.pool.NonNegative)
    (hg : ∀ m ∈ ms, m.source ≠ g) {load : PlannedLoad K} (hl : p.view g = .ok load) :
    ∃ load', p'.view g = .ok load' ∧ load.AtMost load' := by
  induction h generalizing load with
  | nil => exact ⟨load, hl, .refl load⟩
  | @cons p between p' m ms hs _ ih =>
    obtain ⟨hsource, hrest⟩ := List.forall_mem_cons.mp hg
    obtain ⟨vm, hv, -⟩ := hs.stays
    obtain ⟨left, taken, projected, committed, -, htaken, hp, hc, hload⟩ :=
      moveDemand_eq_ok hs.ne (hs.view vm hv)
    have hd : 0 ≤ vm.demand.mips := hn _ vm hv
    obtain ⟨step, hstep, hgrown⟩ : ∃ step, between.view g = .ok step ∧ load.AtMost step := by
      rw [hload]
      by_cases htarget : g = m.target
      · rw [htarget, htaken, Except.ok.injEq] at hl
        subst hl
        exact ⟨_, if_pos htarget, .add hd hp, .add hd hc⟩
      · rw [if_neg htarget, if_neg hsource.symm]
        exact ⟨load, hl, .refl load⟩
    obtain ⟨load', hl', hlater⟩ := ih (hs.pool.symm ▸ hn) hrest hstep
    exact ⟨load', hl', hgrown.trans hlater⟩

/-- The source is relieved, or no target has room for a VM that was tried and is not planned. -/
theorem Distributes.leaves (h : Distributes source targets upper p vms ms p')
    (ht : Tracks p after) (hn : p.pool.NonNegative) :
    (ms ≠ [] ∧ p'.isRelieved source upper = .ok true)
      ∨ ∀ v ∈ vms, p'.plannedVms.contains v = false → ∀ vm, p.pool.vms.get? v = some vm →
        ∀ t ∈ targets, t ≠ source → p.pool.hosts.contains t = true →
          p'.view.fits p.pool t vm.demand upper ≠ .ok true := by
  induction h generalizing after with
  | done p => exact .inr (List.forall_mem_nil _)
  | last vms hs hm hrelieved => exact .inl ⟨List.cons_ne_nil _ _, hrelieved⟩
  | @skip p p' v vm vms ms hv hfit rest ih =>
    refine (ih ht hn).imp_right fun hleft => List.forall_mem_cons.mpr ⟨?_, hleft⟩
    intro _ vm' hv' t hmem hne hknown
    rw [hv, Option.some.injEq] at hv'
    subst hv'
    -- The target refused the VM when it was tried, and has not become lighter since.
    obtain ⟨hbelow, hfollows⟩ := rest.plannedBelow
    obtain ⟨host, hh⟩ := Option.isSome_iff_exists.mp hknown
    have hrefused := Outlook.fits_of_firstFit_eq_none hfit t hmem hne
      Std.TreeSet.contains_emptyc hknown
    obtain ⟨host', hh', -⟩ := ht.hosts.symm.get? hh
    obtain ⟨load, hl, -⟩ := ht.loads hn hh'
    obtain ⟨load', hl', hle⟩ := hbelow.planned.load_atMost hn
      (fun m hm heq => hne (heq.symm.trans (hfollows m hm).1.source)) hl
    exact Tally.View.refuses_heavier hh hl hl' hle (ht.projected_nonneg hn hh hl) (hn v vm hv)
      hrefused
  | more hs hm hrelieved rest ih =>
    obtain ⟨between, -, hbetween⟩ := ht.step hs.toStep
    rcases ih hbetween (hs.pool.symm ▸ hn) with ⟨-, hrelieved⟩ | hleft
    · exact .inl ⟨List.cons_ne_nil _ _, hrelieved⟩
    · rw [hs.pool] at hleft
      refine .inr (List.forall_mem_cons.mpr ⟨fun hunplanned => ?_, hleft⟩)
      have hfree := rest.plannedBelow.1.planned.unplanned hunplanned
      exact absurd rfl ((hs.unplanned_iff _).mp hfree).1

/-- When a host has been distributed, it is relieved by at least one migration, or no other known
target has room for a VM that stays on it. Asking for room can only fail on a host that, together
with the VM, has more memory than a word counts. -/
theorem distribute_gives_up {pool : Pool K} (hr : pool.Reachable) (hn : pool.NonNegative) {id : Nat}
    {calls : List (Call K)} {plans : List (List (Migration K))} {p p' : Planner K}
    (hcalls : (Planner.start pool id).answers calls = .ok (plans, p))
    (h : p.distribute source targets upper = .ok (ms, p')) :
    (ms ≠ [] ∧ ∃ cpu ram read last, p'.tally.cpuUtilization pool source = .ok (cpu, read)
      ∧ read.ramUtilization pool source = .ok (ram, last) ∧ cpu < upper ∧ ram < upper)
    ∨ ∀ v vm, pool.vms.get? v = some vm → pool.StaysOn source v →
      p'.plannedVms.contains v = false → ∀ t ∈ targets, t ≠ source →
      pool.hosts.contains t = true →
        (∃ last, p'.tally.fits pool t vm.demand upper = .ok (false, last))
        ∨ p'.tally.fits pool t vm.demand upper = .error .overflow ∧ pool.Outgrows v t := by
  have hplanned := (answers_planned hr.ownership hcalls).1
  obtain rfl : p.pool = pool := hplanned.pool_eq
  obtain ⟨after, -, ht⟩ := (Tracks.start hr id).run hplanned
  obtain ⟨vms, hvms, hdistributes⟩ := distributes_of_distribute hr.ownership h
  have hlast := hdistributes.plannedBelow.1.planned
  have hpool : p'.pool = p.pool := hlast.pool_eq
  rcases hdistributes.leaves ht hn with ⟨hne, hrelieved⟩ | hleft
  · obtain ⟨cpu, ram, hcpu, hram, hbelow⟩ := isRelieved_eq_true hrelieved
    obtain ⟨read, last, hread, hlast⟩ := Tally.utilizations_eq_ok hcpu hram
    rw [hpool] at hread hlast
    exact .inl ⟨hne, _, _, read, last, hread, hlast, hbelow⟩
  · refine .inr fun v vm hv hstays hunplanned t hmem hne hknown => ?_
    have hcandidate := mem_candidateVms hr.ownership hvms hstays (hlast.unplanned hunplanned)
    have hnot := hleft v hcandidate hunplanned vm hv t hmem hne hknown
    -- Loads stay within the capacity, so no other sum is too large.
    have hwithin : p'.outlook.Within p.pool := by
      have hbefore := answers_yields hr (within_start hr id) calls
      rw [hcalls] at hbefore
      have hafter := distribute_yields hr hbefore source targets upper
      rw [h] at hafter
      exact hafter
    obtain ⟨vm', hv', hs, -⟩ := hstays
    rw [hv, Option.some.injEq] at hv'
    subst hv'
    have hasked := Tally.fits_agrees p'.tally p'.pool t vm.demand upper
    rw [hpool] at hasked
    have hview : p'.outlook.view = p'.tally.view p.pool := congrArg p'.tally.view hpool
    rw [← hview] at hasked
    rcases hwithin.fits_cases hv hs (Ne.symm hne) hknown upper with ⟨fit, hfit⟩ | ⟨hfault, hsum⟩
    · cases fit with
      | false =>
        obtain ⟨⟨_, last⟩, hrefused, rfl, -⟩ := hasked.eq_ok_right hfit
        exact .inl ⟨last, hrefused⟩
      | true => exact absurd hfit hnot
    · exact .inr ⟨hasked.eq_error_right hfault, hsum⟩

/-- A host with one VM that is too large for the other host, and two that are not. -/
def stuckRun : List (Pool.Op ℚ) :=
  let host : HostSpec ℚ := ⟨"host", 10, 1000, 8192, 1000, 100000, .linear 200 (1 / 2)⟩
  let vm (mips : ℚ) : VmSpec ℚ := ⟨"tenant", 1, mips, 1024, 100, 1000⟩
  [.addHost host, .addHost host, .addVm (vm 9000), .addVm (vm 500), .addVm (vm 400),
    .addVm (vm 7000), .allocate 0 0, .allocate 1 0, .allocate 2 0, .allocate 3 1]

theorem stuckRun_gives_up : ∃ (pool : Pool ℚ) (plans : List (List (Migration ℚ))) (p p' : Planner ℚ)
    (ms : List (Migration ℚ)), Pool.empty.run stuckRun = .ok pool ∧ pool.Reachable
    ∧ pool.NonNegative
    ∧ (Planner.start pool 7).answers [.consolidate 1 [0] ∅ (4 / 5)] = .ok (plans, p)
    ∧ p.distribute 0 [1] (4 / 5) = .ok (ms, p') ∧ ms.map (·.vm) = [1, 2]
    ∧ (∃ read, p'.tally.cpuUtilization pool 0 = .ok (9 / 10, read))
    ∧ ∀ v vm, pool.vms.get? v = some vm → pool.StaysOn 0 v →
      p'.plannedVms.contains v = false → ∀ t ∈ [1], t ≠ 0 → pool.hosts.contains t = true →
        (∃ last, p'.tally.fits pool t vm.demand (4 / 5) = .ok (false, last))
        ∨ p'.tally.fits pool t vm.demand (4 / 5) = .error .overflow ∧ pool.Outgrows v t := by
  have hrun : (Pool.empty.run stuckRun).toOption.any (fun pool =>
      (pool.vms.entries.all fun e => decide (0 ≤ e.2.demand.mips))
      && ((Planner.start pool 7).answers [.consolidate 1 [0] ∅ (4 / 5)]).toOption.any fun r =>
        (r.2.distribute 0 [1] (4 / 5)).toOption.any fun r =>
          r.1.map (·.vm) == [1, 2]
          && (r.2.tally.cpuUtilization pool 0).toOption.any (·.1 == 9 / 10)) = true := by
    decide +kernel
  obtain ⟨pool, hp, htest⟩ := Checked.eq_ok_of_any hrun
  rw [Bool.and_eq_true] at htest
  obtain ⟨⟨plans, p⟩, hanswers, htest'⟩ := Checked.eq_ok_of_any htest.2
  obtain ⟨⟨ms, p'⟩, hdistribute, htest'⟩ := Checked.eq_ok_of_any htest'
  rw [Bool.and_eq_true, beq_iff_eq] at htest'
  obtain ⟨⟨cpu, read⟩, hcpu, heq⟩ := Checked.eq_ok_of_any htest'.2
  rw [beq_iff_eq] at heq
  subst heq
  have hr := Pool.reachable_of_run hp
  have hn : pool.NonNegative := .of_all htest.1
  refine ⟨pool, plans, p, p', ms, hp, hr, hn, hanswers, hdistribute, htest'.1, ⟨read, hcpu⟩, ?_⟩
  refine (distribute_gives_up hr hn hanswers hdistribute).resolve_left ?_
  rintro ⟨-, used, _, _, _, hused, -, hbelow, -⟩
  rw [hcpu, Except.ok.injEq, Prod.mk.injEq] at hused
  obtain ⟨rfl, -⟩ := hused
  norm_num at hbelow

/-- Two hosts with as much memory as a word counts, and VMs with much memory. One VM is too large
for the other host in its compute rate, another one in its memory. -/
def vastRun : List (Pool.Op ℚ) :=
  let host : HostSpec ℚ :=
    ⟨"host", 10, 1000, 18446744073709551615, 1000, 100000, .linear 200 (1 / 2)⟩
  let vm (mips : ℚ) (ram : UInt64) : VmSpec ℚ := ⟨"tenant", 1, mips, ram, 100, 1000⟩
  [.addHost host, .addHost host, .addVm (vm 9000 1024), .addVm (vm 100 10000000000000000000),
    .addVm (vm 100 5000000000000000000), .addVm (vm 4000 8000000000000000000), .allocate 0 0,
    .allocate 1 0, .allocate 2 0, .allocate 3 1]

/-- The host is not relieved, and asking for room for a VM that is left on it is a fault. -/
theorem vastRun_overflows : ∃ (pool : Pool ℚ) (p' : Planner ℚ) (ms : List (Migration ℚ))
    (vm : Vm ℚ), Pool.empty.run vastRun = .ok pool ∧ pool.Reachable ∧ pool.NonNegative
    ∧ (Planner.start pool 1).distribute 0 [1] (4 / 5) = .ok (ms, p')
    ∧ (∃ read, p'.tally.cpuUtilization pool 0 = .ok (91 / 100, read))
    ∧ pool.vms.get? 1 = some vm ∧ pool.StaysOn 0 1 ∧ p'.plannedVms.contains 1 = false
    ∧ p'.tally.fits pool 1 vm.demand (4 / 5) = .error .overflow := by
  have hrun : (Pool.empty.run vastRun).toOption.any (fun pool =>
      (pool.vms.entries.all fun e => decide (0 ≤ e.2.demand.mips))
      && ((Planner.start pool 1).distribute 0 [1] (4 / 5)).toOption.any fun r =>
          (r.2.tally.cpuUtilization pool 0).toOption.any (·.1 == 91 / 100)
          && (pool.vms.get? 1).any fun vm => vm.host == some 0 && vm.migrationTarget == none
            && !r.2.plannedVms.contains 1
            && (Prod.fst <$> r.2.tally.fits pool 1 vm.demand (4 / 5)) == .error .overflow)
      = true := by
    decide +kernel
  obtain ⟨pool, hp, htest⟩ := Checked.eq_ok_of_any hrun
  rw [Bool.and_eq_true] at htest
  obtain ⟨⟨ms, p'⟩, hdistribute, htest'⟩ := Checked.eq_ok_of_any htest.2
  rw [Bool.and_eq_true] at htest'
  obtain ⟨⟨cpu, read⟩, hcpu, heq⟩ := Checked.eq_ok_of_any htest'.1
  rw [beq_iff_eq] at heq
  subst heq
  obtain ⟨vm, hv, hleft⟩ := (Option.any_eq_true _ _).mp htest'.2
  simp only [Bool.and_eq_true, beq_iff_eq, Bool.not_eq_true'] at hleft
  obtain ⟨⟨⟨hhost, htarget⟩, hunplanned⟩, hfault⟩ := hleft
  have hn : pool.NonNegative := .of_all htest.1
  exact ⟨pool, p', ms, vm, hp, Pool.reachable_of_run hp, hn, hdistribute,
    ⟨read, hcpu⟩, hv, ⟨vm, hv, hhost, htarget⟩, hunplanned,
    (Checked.map_eq_error_iff _ _ _).mp hfault⟩

end Planner

end Datacenter
