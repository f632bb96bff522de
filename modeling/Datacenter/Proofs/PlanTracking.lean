import Datacenter.Simulation.Plan
import Datacenter.Proofs.Admissions
import Datacenter.Proofs.ExactScalar
import Datacenter.Proofs.PlannerSteps

/-!
# Plans and the pool that they lead to

Each migration that a planner plans can be started, and the tally knows what hosts have after that.
Committed loads are what is allocated. Projected loads are what is committed less what migrates out,
which is the planning load as soon as no VM asks for a negative compute rate.

Main statements: `Tracks.start`, `Tracks.step` and `Tracks.run`.
-/

namespace Datacenter

/-! ### Starting a migration -/

namespace Pool

variable {α M : Type} [Scalar α]

/-- The target keeps what the VM takes, and the VM is on its way. All else is as before. -/
theorem startMigration_writes {pool pool' : Pool α} {v : VmId} {vm : Vm α} {t : HostId}
    (hv : pool.vms.get? v = some vm) (h : pool.startMigration v t = .done pool') :
    vm.migrationTarget = none ∧ vm.host ≠ some t
      ∧ (∀ w, pool'.vms.get? w = if w = v then some (vm.movingTo t) else pool.vms.get? w)
      ∧ ∃ target total, pool.hosts.get? t = some target
        ∧ target.incomingTotal.add vm.demand = .ok total
        ∧ ∀ g, pool'.hosts.get? g = if g = t then
          some { target with
            incoming := target.incoming.insert v vm.demand, incomingTotal := total }
          else pool.hosts.get? g := by
  obtain ⟨vm', s, target, target', hv', hs, hm, hne, ht, hreserve, rfl⟩ :=
    (startMigration_eq_done_iff _ _ _ _).mp h
  rw [hv, Option.some.injEq] at hv'
  subst hv'
  obtain ⟨-, -, -, total, htotal, rfl⟩ := (Host.reserve_eq_done_iff _ _ _ _).mp hreserve
  refine ⟨hm, ?_, fun w => ?_, target, total, ht, htotal, fun g => ?_⟩
  · rw [hs]
    simpa using hne
  · rw [vms_withVm, vms_withHost, Table.get?_insert]
  · rw [hosts_withVm, hosts_withHost, Table.get?_insert]

/-- What leaves hosts once a migration is started: what left them before, and the VM its source. -/
theorem outgoing_startMigration [AddCommMonoid M] (f : Resources α → M) {pool pool' : Pool α}
    (own : pool.Ownership) {v : VmId} {vm : Vm α} {t : HostId}
    (hv : pool.vms.get? v = some vm) (h : pool.startMigration v t = .done pool') {g : HostId}
    {before host : Host α} (hbefore : pool.hosts.get? g = some before)
    (hg : pool'.hosts.get? g = some host) :
    pool'.outgoing f host
      = pool.outgoing f before + if vm.host = some g then f vm.demand else 0 := by
  obtain ⟨hm, -, hvms, target, total, ht, -, hhosts⟩ := startMigration_writes hv h
  have hsame : host.resident = before.resident := by
    rw [hhosts] at hg
    split at hg
    · rename_i hgt
      rw [hgt, ht, Option.some.injEq] at hbefore
      cases hg
      rw [hbefore]
    · rw [hbefore, Option.some.injEq] at hg
      rw [hg]
  have hmoving : ∀ w, pool'.migrates w = if w = v then true else pool.migrates w := by
    intro w
    rw [migrates, hvms]
    split
    · rfl
    · rfl
  have hstays : pool.migrates v = false := by
    rw [migrates_of_get? hv, Vm.isMigrating, hm, Option.isSome_none]
  rw [outgoing, outgoing, hsame]
  have hshare := own.resident_of_get? hv g
  rw [residentShare_of_get? hbefore] at hshare
  split
  · -- The weights differ at the VM only, where nothing was taken before.
    rename_i hsource
    rw [if_pos hsource] at hshare
    have hchange := Table.total_change (f := fun w d => if pool.migrates w then f d else 0)
      (g := fun w d => if w = v then f d else if pool.migrates w then f d else 0) hshare
      fun w d hw _ => by rw [if_neg hw]
    simp only [hstays, Bool.false_eq_true, if_false, add_zero, if_true] at hchange
    rw [← hchange]
    refine Table.total_congr fun w d _ => ?_
    rw [hmoving w]
    by_cases hw : w = v
    · simp [hw]
    · simp [hw]
  · rename_i hother
    rw [if_neg hother] at hshare
    rw [add_zero]
    refine Table.total_congr fun w d hd => ?_
    have hw : w ≠ v := by
      rintro rfl
      rw [hshare] at hd
      cases hd
    rw [hmoving w, if_neg hw]

/-! ### Exact compute rates -/

/-- No VM asks for a negative compute rate. -/
def NonNegative (pool : Pool α) : Prop := ∀ v vm, pool.vms.get? v = some vm → 0 ≤ vm.demand.mips

theorem NonNegative.of_all {pool : Pool α}
    (h : (pool.vms.entries.all fun e => decide (0 ≤ e.2.demand.mips)) = true) :
    pool.NonNegative := by
  intro v vm hv
  exact of_decide_eq_true (List.all_eq_true.mp h (v, vm) ((Table.mem_entries_iff _ _ _).mpr hv))

variable {K : Type} [ExactScalar K]

theorem Reachable.covers_mips {pool : Pool K} (hr : pool.Reachable) :
    pool.AllHosts fun host => host.Covers fun d => d.mips := by
  have hboth : pool.AllHosts fun host => host.Balanced ∧ host.Covers fun d => d.mips := by
    refine hr.allHosts (fun id spec => ?_) fun a b hab hs => ?_
    · exact ⟨.create id spec, .create Resources.isAmount_mips id spec⟩
    · exact ⟨hab.1.step hs, hab.2.step hab.1 Resources.isAmount_mips hs⟩
  exact fun h host hh => (hboth h host hh).2

theorem Reachable.carries_mips {pool : Pool K} (hr : pool.Reachable) (hn : pool.NonNegative) :
    pool.AllHosts fun host => host.Carries fun d => d.mips := by
  intro h host hh
  refine (hr.covers_mips h host hh).carries Resources.isAmount_mips (fun v d hd => ?_)
    fun v d hd => ?_
  · rw [← residentShare_of_get? hh, hr.ownership.resident, placedDemand_eq_some_iff] at hd
    obtain ⟨vm, hv, -, rfl⟩ := hd
    exact hn v vm hv
  · rw [← incomingShare_of_get? hh, hr.ownership.incoming, movingDemand_eq_some_iff] at hd
    obtain ⟨vm, hv, -, rfl⟩ := hd
    exact hn v vm hv

end Pool

/-! ### Projected loads -/

namespace Tally.View

variable {α M : Type} [Scalar α] [AddCommMonoid M] [PartialOrder M] [IsOrderedCancelAddMonoid M]

/-- In the amount, what is projected is what is committed less what migrates out. -/
def Projects (view : View α) (pool : Pool α) (f : Resources α → M) : Prop :=
  ∀ h host load, pool.hosts.get? h = some host → view h = .ok load →
    f load.projected + pool.outgoing f host = f load.committed

theorem Projects.planningLoad {f : Resources α → M} (hf : Resources.IsAmount f) {view : View α}
    {pool : Pool α} (hp : view.Projects pool f) {h : HostId} {host : Host α} {load : PlannedLoad α}
    {planning : Resources α} (hh : pool.hosts.get? h = some host) (hc : host.Carries f)
    (hl : view h = .ok load) (ha : host.allocated = .ok load.committed)
    (hplanning : pool.planningLoad h = .ok planning) : f planning = f load.projected := by
  have hexact := Pool.planningLoad_exact hf hh hc ha hplanning
  have hprojected := hp h host load hh hl
  exact add_right_cancel (hexact.trans hprojected.symm)

/-- Moving a demand in the tally does to projections what starting the migration does to the pool,
as long as the source has what leaves it. -/
theorem Projects.moveDemand {f : Resources α → M} (hf : Resources.IsAmount f)
    {view view' : View α} {pool pool' : Pool α} (own : pool.Ownership) {v : VmId} {vm : Vm α}
    {source target : HostId}
    (hv : pool.vms.get? v = some vm) (hs : vm.host = some source) (hne : source ≠ target)
    (hstart : pool.startMigration v target = .done pool')
    (hmove : view.moveDemand source target vm.demand = .ok view')
    (hle : ∀ host load, pool'.hosts.get? source = some host → view source = .ok load →
      pool'.outgoing f host ≤ f load.committed)
    (hp : view.Projects pool f) : view'.Projects pool' f := by
  obtain ⟨left, taken, projected, committed, hleft, htaken, hprojected, hcommitted, hload⟩ :=
    Planner.moveDemand_eq_ok hne hmove
  intro h host load hh hl
  obtain ⟨before, hbefore⟩ : ∃ before, pool.hosts.get? h = some before := by
    obtain ⟨-, -, -, g, total, hg, -, hhosts⟩ := Pool.startMigration_writes hv hstart
    rw [hhosts] at hh
    split at hh
    · rename_i htarget
      exact ⟨g, htarget ▸ hg⟩
    · exact ⟨host, hh⟩
  have hout := Pool.outgoing_startMigration f own hv hstart hbefore hh
  rw [hload] at hl
  by_cases htarget : h = target
  · -- The target has more in both ways, and nothing else leaves it.
    rw [if_pos htarget, Except.ok.injEq] at hl
    subst hl
    have hpart := hp h before taken hbefore (htarget ▸ htaken)
    rw [hs, if_neg (by rw [htarget]; simpa using hne), add_zero] at hout
    rw [hout, hf.add hprojected, hf.add hcommitted, ← hpart, add_right_comm]
  · rw [if_neg htarget] at hl
    by_cases hsource : h = source
    · -- What leaves the source in addition is what its projection loses.
      rw [if_pos hsource, Except.ok.injEq] at hl
      subst hl
      have hpart := hp h before left hbefore (hsource ▸ hleft)
      have hall := hle host left (hsource ▸ hh) hleft
      rw [hs, if_pos (by rw [hsource])] at hout
      rw [hout, ← hpart, add_comm (pool.outgoing f before)] at hall
      have hsub := hf.sub (le_of_add_le_add_right hall)
      rw [hout, add_comm (pool.outgoing f before), ← add_assoc, hsub, hpart]
    · rw [if_neg hsource] at hl
      rw [hs, if_neg (by simpa using Ne.symm hsource), add_zero] at hout
      rw [hout]
      exact hp h before load hbefore hl

end Tally.View

/-! ### Tracking a pool -/

namespace Planner

variable {K : Type} [ExactScalar K]

/-- The tally gives the loads of a pool in which all planned migrations are under way. -/
structure Tracks (p : Outlook K) (after : Pool K) : Prop where
  reachable : after.Reachable
  hosts : p.pool.SameHosts after
  unplanned : ∀ v, p.plannedVms.contains v = false → after.vms.get? v = p.pool.vms.get? v
  demand : ∀ v vm', after.vms.get? v = some vm' →
    ∃ vm, p.pool.vms.get? v = some vm ∧ vm'.demand = vm.demand
  committed : ∀ h host, after.hosts.get? h = some host →
    ∃ load, p.view h = .ok load ∧ host.allocated = .ok load.committed
  stock : ∀ k, p.view.Projects after fun d => d.stock k
  mips : p.pool.NonNegative → p.view.Projects after fun d => d.mips

namespace Tracks

variable {p p' : Outlook K} {after after' : Pool K} {m : Migration K}

theorem nonNegative (ht : Tracks p after) (hn : p.pool.NonNegative) : after.NonNegative := by
  intro v vm' hv'
  obtain ⟨vm, hv, hd⟩ := ht.demand v vm' hv'
  rw [hd]
  exact hn v vm hv

theorem startMigration_eq_done (ht : Tracks p after) (hs : p.Step m p') :
    ∃ vm after', p.pool.vms.get? m.vm = some vm ∧ vm.host = some m.source
      ∧ after.startMigration m.vm m.target = .done after' := by
  obtain ⟨vm, hv, hhost, hm⟩ := hs.stays
  -- Room in the tally is room on the host, on which as much is allocated as the tally committed.
  obtain ⟨load, planned, hload, hplanned, hroom⟩ := (hs.room vm hv).shortage_eq_none
  obtain ⟨host, hh, hsame⟩ := ht.hosts.symm.get? hplanned
  obtain ⟨load', hload', ha⟩ := ht.committed _ host hh
  rw [hload, Except.ok.injEq] at hload'
  subst hload'
  have hcapacity : planned.capacity = host.capacity := by
    rw [Host.capacity, Host.capacity, Host.totalMips, Host.totalMips, hsame.2]
  have hshort := (Host.shortage_eq_none_iff host vm.demand).mpr
    ⟨load.committed, ha, hcapacity ▸ hroom⟩
  have hv' : after.vms.get? m.vm = some vm := (ht.unplanned _ hs.unplanned).trans hv
  obtain ⟨after', hstart⟩ :=
    ht.reachable.startMigration_of_room hv' hhost hm hs.ne hh hshort
  exact ⟨vm, after', hv, hhost, hstart⟩

theorem committed_startMigration (ht : Tracks p after) {vm : Vm K}
    (hv : after.vms.get? m.vm = some vm) (hne : m.source ≠ m.target)
    (hstart : after.startMigration m.vm m.target = .done after')
    (hmove : p.view.moveDemand m.source m.target vm.demand = .ok p'.view) (h : HostId)
    (host : Host K) (hh : after'.hosts.get? h = some host) :
    ∃ load, p'.view h = .ok load ∧ host.allocated = .ok load.committed := by
  obtain ⟨left, taken, projected, committed, hleft, htaken, -, hcommitted, hload⟩ :=
    moveDemand_eq_ok hne hmove
  obtain ⟨-, -, -, target, total, htarget, htotal, hhosts⟩ := Pool.startMigration_writes hv hstart
  rw [hhosts] at hh
  rw [hload]
  by_cases hht : h = m.target
  · rw [if_pos hht, Option.some.injEq] at hh
    rw [if_pos hht]
    refine ⟨_, rfl, ?_⟩
    obtain ⟨taken', htaken', ha⟩ := ht.committed _ target htarget
    rw [htaken, Except.ok.injEq] at htaken'
    subst htaken' hh
    have hbefore := (Resources.add_eq_ok_iff _ _ _).mp ha
    have hgrown := (Resources.add_eq_ok_iff _ _ _).mp hcommitted
    have hkept := (Resources.add_eq_ok_iff _ _ _).mp htotal
    -- The tally adds the demand to the sum of both totals, the host to one of them before.
    refine (Resources.add_eq_ok_iff _ _ _).mpr ⟨?_, fun k => ?_⟩
    · simp only [hgrown.1, hbefore.1, hkept.1]
      exact add_assoc _ _ _
    · simp only [hgrown.2 k, hbefore.2 k, hkept.2 k]
      exact Nat.add_assoc _ _ _
  · rw [if_neg hht] at hh
    rw [if_neg hht]
    obtain ⟨load, hl, ha⟩ := ht.committed h host hh
    by_cases hhs : h = m.source
    · rw [hhs, hleft, Except.ok.injEq] at hl
      rw [if_pos hhs]
      exact ⟨_, rfl, hl ▸ ha⟩
    · rw [if_neg hhs]
      exact ⟨load, hl, ha⟩

theorem projects_startMigration {M : Type} [AddCommMonoid M] [PartialOrder M]
    [IsOrderedCancelAddMonoid M] {f : Resources K → M} (hf : Resources.IsAmount f)
    (ht : Tracks p after) {vm : Vm K} (hv : after.vms.get? m.vm = some vm)
    (hhost : vm.host = some m.source) (hne : m.source ≠ m.target)
    (hstart : after.startMigration m.vm m.target = .done after')
    (hmove : p.view.moveDemand m.source m.target vm.demand = .ok p'.view)
    (hcarries : after'.AllHosts fun host => host.Carries f) (hp : p.view.Projects after f) :
    p'.view.Projects after' f := by
  refine hp.moveDemand hf ht.reachable.ownership hv hhost hne hstart hmove ?_
  -- What leaves the source is part of what is allocated on it, which does not change.
  intro host load hh hl
  obtain ⟨-, -, -, target, total, -, -, hhosts⟩ := Pool.startMigration_writes hv hstart
  have hsource : after.hosts.get? m.source = some host := by
    rw [hhosts, if_neg hne] at hh
    exact hh
  obtain ⟨load', hl', ha⟩ := ht.committed m.source host hsource
  rw [hl, Except.ok.injEq] at hl'
  subst hl'
  exact Pool.outgoing_le after' (hcarries m.source host hh) ha

/-- A planned migration can be started, and the tally goes along with the pool. -/
theorem step (ht : Tracks p after) (hs : p.Step m p') :
    ∃ after', after.startMigration m.vm m.target = .done after' ∧ Tracks p' after' := by
  obtain ⟨vm, after', hpool, hhost, hstart⟩ := ht.startMigration_eq_done hs
  have hv : after.vms.get? m.vm = some vm := (ht.unplanned _ hs.unplanned).trans hpool
  have hmove := hs.view vm hpool
  obtain ⟨-, -, hvms, target, total, htarget, -, hhosts⟩ := Pool.startMigration_writes hv hstart
  have hr : after'.Reachable := by
    refine ht.reachable.apply (.startMigration m.vm m.target) ?_
    rw [Pool.Op.apply, hstart]
    rfl
  have hdemand : ∀ v vm', after'.vms.get? v = some vm' →
      ∃ record, p'.pool.vms.get? v = some record ∧ vm'.demand = record.demand := by
    intro v vm' hv'
    rw [hs.pool]
    rw [hvms] at hv'
    split at hv'
    · rename_i hvm
      cases hv'
      exact ⟨vm, hvm ▸ hpool, rfl⟩
    · exact ht.demand v vm' hv'
  have hcommitted := ht.committed_startMigration hv hs.ne hstart hmove
  refine ⟨after', hstart, hr, ?_, fun v hun => ?_, hdemand, hcommitted, fun k => ?_, fun hn => ?_⟩
  · rw [hs.pool]
    refine ht.hosts.trans fun h => ?_
    rw [hhosts]
    split
    · rename_i hh
      rw [hh, htarget]
      rfl
    · rfl
  · obtain ⟨hne, hbefore⟩ := (hs.unplanned_iff v).mp hun
    rw [hvms, if_neg hne, hs.pool]
    exact ht.unplanned v hbefore
  · exact ht.projects_startMigration (Resources.isAmount_stock k) hv hhost hs.ne hstart hmove
      (hr.carries_stock k) (ht.stock k)
  · rw [hs.pool] at hn
    have hn' : after'.NonNegative := by
      intro v vm' hv'
      obtain ⟨record, hrecord, hd⟩ := hdemand v vm' hv'
      rw [hd]
      exact hn v record (hs.pool ▸ hrecord)
    exact ht.projects_startMigration Resources.isAmount_mips hv hhost hs.ne hstart hmove
      (hr.carries_mips hn') (ht.mips hn)

theorem run {ms : List (Migration K)} (ht : Tracks p after) (hp : Planned p ms p') :
    ∃ after', after.startPlan ms = .ok (after', none) ∧ Tracks p' after' := by
  induction hp generalizing after with
  | nil p => exact ⟨after, rfl, ht⟩
  | cons hs _ ih =>
    obtain ⟨between, hstart, hbetween⟩ := ht.step hs
    obtain ⟨after', hrest, hafter⟩ := ih hbetween
    refine ⟨after', ?_, hafter⟩
    rw [Pool.startPlan, hstart]
    exact hrest

theorem start {pool : Pool K} (hr : pool.Reachable) (id : Nat) :
    Tracks (Planner.start pool id).outlook pool := by
  rw [outlook_start]
  have hload : ∀ h host, pool.hosts.get? h = some host →
      ∃ load, PlannedLoad.current pool h = .ok load ∧ pool.planningLoad h = .ok load.projected
        ∧ host.allocated = .ok load.committed := by
    intro h host hh
    obtain ⟨committed, ha, -⟩ := (hr.balanced h host hh).allocated
    obtain ⟨projected, hp⟩ := hr.ownership.planningLoad_eq_ok hh ha
    exact ⟨⟨projected, committed⟩, PlannedLoad.current_eq_ok hh hp ha, hp, ha⟩
  have hprojects : ∀ {M : Type} [AddCommMonoid M] [PartialOrder M] [IsOrderedCancelAddMonoid M]
      {f : Resources K → M}, Resources.IsAmount f → (pool.AllHosts fun host => host.Carries f) →
      Tally.View.Projects (PlannedLoad.current pool) pool f := by
    intro M _ _ _ f hf hcarries h host load hh hl
    obtain ⟨load', hl', hp, ha⟩ := hload h host hh
    rw [hl, Except.ok.injEq] at hl'
    subst hl'
    exact Pool.planningLoad_exact hf hh (hcarries h host hh) ha hp
  refine ⟨hr, .refl pool, fun v _ => rfl, fun v vm hv => ⟨vm, hv, rfl⟩, fun h host hh => ?_,
    fun k => ?_, fun hn => ?_⟩
  · obtain ⟨load, hl, -, ha⟩ := hload h host hh
    exact ⟨load, hl, ha⟩
  · exact hprojects (Resources.isAmount_stock k) (hr.carries_stock k)
  · exact hprojects Resources.isAmount_mips (hr.carries_mips hn)

/-- Without negative compute rates, projected loads are the planning loads. -/
theorem loads (ht : Tracks p after) (hn : p.pool.NonNegative) {h : HostId} {host : Host K}
    (hh : after.hosts.get? h = some host) :
    ∃ load, p.view h = .ok load ∧ host.allocated = .ok load.committed
      ∧ after.planningLoad h = .ok load.projected := by
  obtain ⟨load, hl, ha⟩ := ht.committed h host hh
  obtain ⟨planning, hp⟩ := ht.reachable.ownership.planningLoad_eq_ok hh ha
  refine ⟨load, hl, ha, ?_⟩
  have hmips : planning.mips = load.projected.mips := by
    have hc := ht.reachable.carries_mips (ht.nonNegative hn) h host hh
    exact Tally.View.Projects.planningLoad Resources.isAmount_mips (ht.mips hn) hh hc hl ha hp
  have hstock : ∀ k, planning.stock k = load.projected.stock k := by
    intro k
    have hc := ht.reachable.carries_stock k h host hh
    exact Tally.View.Projects.planningLoad (Resources.isAmount_stock k) (ht.stock k) hh hc hl ha hp
  rw [hp, Resources.eq_of_stock_eq hmips hstock]

end Tracks

/-- Once all migrations that a planner answered are under way, what its tally has committed on a
host is what is allocated there, and what it projects is the planning load. -/
theorem tally_follows_pool {pool : Pool K} (hr : pool.Reachable) (hn : pool.NonNegative) {id : Nat}
    {calls : List (Call K)} {plans : List (List (Migration K))} {p : Planner K}
    (h : (Planner.start pool id).answers calls = .ok (plans, p)) :
    ∃ pool', pool.startPlan plans.flatten = .ok (pool', none)
      ∧ ∀ g host, pool.hosts.get? g = some host → ∃ host' load tally, pool'.host g = .ok host'
        ∧ p.tally.load pool g = .ok (load, tally) ∧ host'.allocated = .ok load.committed
        ∧ pool'.planningLoad g = .ok load.projected := by
  have hplanned := (answers_planned hr.ownership h).1
  obtain ⟨pool', hstart, ht⟩ := (Tracks.start hr id).run hplanned
  obtain rfl : p.pool = pool := hplanned.pool_eq
  refine ⟨pool', hstart, fun g host hg => ?_⟩
  obtain ⟨host', hh, -⟩ := ht.hosts.symm.get? hg
  obtain ⟨load, hl, ha, hp⟩ := ht.loads hn hh
  obtain ⟨⟨_, tally⟩, hasked, rfl, -⟩ := (Tally.load_agrees p.tally p.pool g).eq_ok_right hl
  exact ⟨host', _, tally, (Pool.host_eq_ok_iff _ _ _).mpr hh, hasked, ha, hp⟩

/-- Five VMs on three hosts, one of which migrates. The first host has little left. -/
def crowdedRun : List (Pool.Op ℚ) :=
  let host : HostSpec ℚ := ⟨"host", 4, 1000, 8192, 1000, 100000, .linear 200 (1 / 2)⟩
  let vm (mips : ℚ) : VmSpec ℚ := ⟨"tenant", 2, mips, 1024, 100, 1000⟩
  [.addHost host, .addHost host, .addHost host, .addVm (vm 500), .addVm (vm (1501 / 3)),
    .addVm (vm 750), .addVm (vm 250), .addVm (vm (1 / 7)), .allocate 0 0, .allocate 1 0,
    .allocate 2 0, .allocate 3 1, .allocate 4 2, .startMigration 4 1]

/-- The second host takes a VM and gives one away. In between it is not emptied, since it expects
VMs. -/
def crowdedCalls : List (Call ℚ) :=
  [.distribute 0 [1, 2] (4 / 5), .consolidate 1 [2] ∅ (4 / 5), .distribute 1 [1, 0, 2] (4 / 5)]

theorem crowdedCalls_follow : ∃ pool plans p, Pool.empty.run crowdedRun = .ok pool
    ∧ pool.Reachable ∧ pool.NonNegative
    ∧ (Planner.start pool 7).answers crowdedCalls = .ok (plans, p)
    ∧ plans.map (fun ms => ms.map fun m => (m.vm, m.target)) = [[(0, 1)], [], [(3, 2)]]
    ∧ ∃ pool', pool.startPlan plans.flatten = .ok (pool', none)
      ∧ ∀ g host, pool.hosts.get? g = some host → ∃ host' load tally, pool'.host g = .ok host'
        ∧ p.tally.load pool g = .ok (load, tally) ∧ host'.allocated = .ok load.committed
        ∧ pool'.planningLoad g = .ok load.projected := by
  have hrun : (Pool.empty.run crowdedRun).toOption.any (fun pool =>
      pool.vms.entries.all (fun e => decide (0 ≤ e.2.demand.mips))
        && ((Planner.start pool 7).answers crowdedCalls).toOption.any fun r =>
          r.1.map (fun ms => ms.map fun m => (m.vm, m.target)) == [[(0, 1)], [], [(3, 2)]])
      = true := by
    decide +kernel
  obtain ⟨pool, hp, htest⟩ := Checked.eq_ok_of_any hrun
  rw [Bool.and_eq_true, List.all_eq_true] at htest
  obtain ⟨⟨plans, p⟩, hanswers, hmoves⟩ := Checked.eq_ok_of_any htest.2
  have hr := Pool.reachable_of_run hp
  have hn : pool.NonNegative := by
    intro v vm hv
    exact of_decide_eq_true (htest.1 (v, vm) ((Table.mem_entries_iff _ _ _).mpr hv))
  exact ⟨pool, plans, p, hp, hr, hn, hanswers, beq_iff_eq.mp hmoves,
    tally_follows_pool hr hn hanswers⟩

end Planner

end Datacenter
