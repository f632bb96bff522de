import Datacenter.Proofs.Placements
import Datacenter.Proofs.PlanTracking

/-!
# What faults a planner

A planner adds the memory of a VM to what a target will have before it asks whether the target has
room. So the sum may exceed a word, and this is the only fault: hosts and VMs that are looked up are
known, and all other sums stay within the capacity of a host.

Main statements: `fits_eq_error_iff`, `plan_within` and `answers_yields`.
-/

namespace Datacenter

/-! ### Values and expected faults -/

namespace Checked

variable {β γ : Type} {F G : Fault → Prop} {P : β → Prop} {Q : γ → Prop}

/-- The result is a value with the property, or a fault that is expected. -/
def Yields (F : Fault → Prop) (P : β → Prop) : Checked β → Prop
  | .ok value => P value
  | .error e => F e

theorem Yields.bind {x : Checked β} {f : β → Checked γ} (hx : Yields F P x)
    (hf : ∀ value, x = .ok value → P value → Yields F Q (f value)) : Yields F Q (x >>= f) := by
  cases x with
  | ok value => exact hf value rfl hx
  | error e => exact hx

theorem Yields.of_eq_ok {x : Checked β} {value : β} (hx : x = .ok value) (hvalue : P value) :
    Yields F P x := by
  rw [hx]
  exact hvalue

theorem Yields.mono {x : Checked β} (hx : Yields F P x) (hF : ∀ e, F e → G e) : Yields G P x := by
  cases x with
  | ok value => exact hx
  | error e => exact hF e hx

theorem Yields.cases {x : Checked β} (hx : Yields F P x) :
    (∃ value, x = .ok value ∧ P value) ∨ ∃ e, x = .error e ∧ F e := by
  cases x with
  | ok value => exact .inl ⟨value, rfl, hx⟩
  | error e => exact .inr ⟨e, rfl, hx⟩

/-- What agrees with a computation has its faults. -/
theorem Yields.of_agree {R : γ → β → Prop} {x : Checked γ} {y : Checked β} (h : Agree R x y)
    (hy : Yields F P y) (hQ : ∀ c b, R c b → P b → Q c) : Yields F Q x := by
  match x, y, h with
  | .ok c, .ok b, h => exact hQ c b h hy
  | .error e, .error _, rfl => exact hy

theorem map_eq_error_iff (f : β → γ) (x : Checked β) (e : Fault) :
    (f <$> x) = .error e ↔ x = .error e := by
  cases x with
  | ok value => simp [Functor.map, Except.map]
  | error e' => simp [Functor.map, Except.map]

theorem filterAuxM_of_eq_ok {f : β → Checked Bool} {xs : List β}
    (hf : ∀ x ∈ xs, ∃ keep, f x = .ok keep) (acc : List β) :
    ∃ ys, List.filterAuxM f xs acc = .ok ys := by
  induction xs generalizing acc with
  | nil => exact ⟨acc, rfl⟩
  | cons x xs ih =>
    obtain ⟨⟨keep, hkeep⟩, hrest⟩ := List.forall_mem_cons.mp hf
    rw [List.filterAuxM, hkeep, ok_bind]
    exact ih hrest _

theorem filterM_of_eq_ok {f : β → Checked Bool} {xs : List β}
    (hf : ∀ x ∈ xs, ∃ keep, f x = .ok keep) : ∃ ys, xs.filterM f = .ok ys := by
  obtain ⟨ys, hys⟩ := filterAuxM_of_eq_ok hf []
  rw [List.filterM, hys]
  exact ⟨ys.reverse, rfl⟩

end Checked

open Checked (Agree Yields)

/-! ### Lookups in a pool -/

namespace Pool

variable {α : Type} [Scalar α] {pool : Pool α} {h : HostId} {host : Host α}

/-- The VM runs on another host, and it and this host have more memory than a word counts. -/
def Outgrows (pool : Pool α) (v : VmId) (h : HostId) : Prop :=
  ∃ vm s host, pool.vms.get? v = some vm ∧ vm.host = some s ∧ s ≠ h ∧ pool.hosts.get? h = some host
    ∧ UInt64.size ≤ host.ram.toNat + vm.ram.toNat

/-- The sum of the memory of a host and of a VM from elsewhere exceeds a word. -/
def Overflows (pool : Pool α) (e : Fault) : Prop := e = .overflow ∧ ∃ v h, pool.Outgrows v h

theorem Reachable.cpuUtilization_eq_ok (hr : pool.Reachable) (hh : pool.hosts.get? h = some host) :
    ∃ u, pool.cpuUtilization h = .ok u := by
  obtain ⟨load, hl, -⟩ := hr.planningLoad_stock hh
  rw [cpuUtilization, hl, Checked.ok_bind, (host_eq_ok_iff _ _ _).mpr hh]
  exact ⟨_, rfl⟩

theorem Reachable.ramUtilization_eq_ok (hr : pool.Reachable) (hh : pool.hosts.get? h = some host) :
    ∃ u, pool.ramUtilization h = .ok u := by
  obtain ⟨load, hl, -⟩ := hr.planningLoad_stock hh
  rw [ramUtilization, hl, Checked.ok_bind, (host_eq_ok_iff _ _ _).mpr hh]
  exact ⟨_, rfl⟩

theorem Reachable.capture_eq_ok (hr : pool.Reachable) (hh : pool.hosts.get? h = some host) :
    ∃ state, HostState.capture pool h = .ok state := by
  obtain ⟨cpu, hcpu⟩ := hr.cpuUtilization_eq_ok hh
  obtain ⟨ram, hram⟩ := hr.ramUtilization_eq_ok hh
  rw [HostState.capture, (host_eq_ok_iff _ _ _).mpr hh, Checked.ok_bind, hcpu, Checked.ok_bind,
    hram]
  exact ⟨_, rfl⟩

theorem Reachable.migratableVms_eq_ok (hr : pool.Reachable) (h : HostId) :
    ∃ vms, pool.migratableVms h = .ok vms := by
  rw [migratableVms]
  cases hh : pool.hosts.get? h with
  | none => exact ⟨[], rfl⟩
  | some host =>
    have hknown : ∀ v ∈ host.resident.keys,
        ∃ keep, (do return !(← pool.vm v).isMigrating : Checked Bool) = .ok keep := by
      intro v hv
      obtain ⟨d, hd⟩ := (Table.mem_keys_iff _ _).mp hv
      rw [← residentShare_of_get? hh, hr.ownership.resident, placedDemand_eq_some_iff] at hd
      obtain ⟨vm, hvm, -⟩ := hd
      rw [(vm_eq_ok_iff _ _ _).mpr hvm]
      exact ⟨_, rfl⟩
    obtain ⟨staying, hstaying⟩ := Checked.filterM_of_eq_ok hknown
    simp only [hstaying, Checked.ok_bind]
    exact ⟨_, rfl⟩

end Pool

/-! ### Loads that stay within the capacity -/

namespace Planner

variable {α : Type} [Scalar α] {pool : Pool α} {o : Outlook α} {source target : HostId} {v : VmId}
  {vm : Vm α} {upper : α}

/-- The outlook is one on the pool, and knows the loads of all hosts. What is projected is
committed, and that is within the capacity. -/
structure Outlook.Within (o : Outlook α) (pool : Pool α) : Prop where
  pool_eq : o.pool = pool
  loads : ∀ h host, pool.hosts.get? h = some host → ∃ load, o.view h = .ok load
    ∧ ∀ k, load.projected.stock k ≤ load.committed.stock k
      ∧ load.committed.stock k ≤ host.capacity.stock k

theorem within_start (hr : pool.Reachable) (id : Nat) :
    (Planner.start pool id).outlook.Within pool := by
  rw [outlook_start]
  refine ⟨rfl, fun h host hh => ?_⟩
  obtain ⟨committed, ha, -, hsum⟩ := (hr.balanced h host hh).allocated
  obtain ⟨projected, hp, hload⟩ := hr.planningLoad_stock hh
  refine ⟨⟨projected, committed⟩, PlannedLoad.current_eq_ok hh hp ha, fun k => ?_⟩
  have hprojected := hload k
  have hcommitted := hsum k
  have hwithin := (hr.balanced h host hh).within k
  dsimp only
  omega

/-- On a known host, exactly the sum of projected and demanded memory may exceed a word. -/
theorem fits_eq_error_iff {view : Tally.View α} {h : HostId} {host : Host α}
    {load : PlannedLoad α} {demand : Resources α} (hl : view h = .ok load)
    (hh : pool.hosts.get? h = some host) (e : Fault) :
    view.fits pool h demand upper = .error e
      ↔ e = .overflow ∧ UInt64.size ≤ load.projected.ram.toNat + demand.ram.toNat := by
  rw [Tally.View.fits, hl, Checked.ok_bind, (Pool.host_eq_ok_iff _ _ _).mpr hh, Checked.ok_bind,
    PlannedLoad.fits]
  by_cases hfit : load.projected.ram.toNat + demand.ram.toNat < UInt64.size
  · obtain ⟨ram, hram, -⟩ := addWords_eq_ok hfit
    have hnot : ¬UInt64.size ≤ load.projected.ram.toNat + demand.ram.toNat := Nat.not_le.mpr hfit
    rw [hram, Checked.ok_bind]
    dsimp only
    split
    · simp [Checked.pure_eq_ok, hnot]
    · simp [Checked.pure_eq_ok, hnot]
  · have herror : addWords load.projected.ram demand.ram = .error .overflow := if_neg hfit
    rw [herror]
    constructor
    · intro h
      cases h
      exact ⟨rfl, Nat.le_of_not_lt hfit⟩
    · rintro ⟨rfl, -⟩
      rfl

namespace Outlook

/-- Asking for room is answered, or the VM and the host have too much memory for a word. -/
theorem Within.fits_cases (hw : o.Within pool) (hv : pool.vms.get? v = some vm)
    (hs : vm.host = some source) (hne : source ≠ target)
    (ht : pool.hosts.contains target = true) (upper : α) :
    (∃ fit, o.view.fits pool target vm.demand upper = .ok fit)
      ∨ o.view.fits pool target vm.demand upper = .error .overflow ∧ pool.Outgrows v target := by
  obtain ⟨host, hh⟩ := Option.isSome_iff_exists.mp ht
  obtain ⟨load, hl, hbounds⟩ := hw.loads target host hh
  cases hfits : o.view.fits pool target vm.demand upper with
  | ok fit => exact .inl ⟨fit, rfl⟩
  | error e =>
    obtain ⟨rfl, hsum⟩ := (fits_eq_error_iff hl hh e).mp hfits
    have hmemory : load.projected.ram.toNat ≤ host.ram.toNat :=
      (hbounds .memory).1.trans (hbounds .memory).2
    have hrecord : vm.demand.ram = vm.ram := rfl
    rw [hrecord] at hsum
    exact .inr ⟨rfl, vm, source, host, hv, hs, hne, hh, by omega⟩

theorem fits_yields (hw : o.Within pool) (hv : pool.vms.get? v = some vm)
    (hs : vm.host = some source) (hne : source ≠ target)
    (ht : pool.hosts.contains target = true) :
    Yields pool.Overflows (fun _ => True) (o.view.fits o.pool target vm.demand upper) := by
  rw [hw.pool_eq]
  rcases hw.fits_cases hv hs hne ht upper with ⟨fit, hfit⟩ | ⟨hfault, houtgrows⟩
  · exact .of_eq_ok hfit trivial
  · rw [hfault]
    exact ⟨rfl, v, target, houtgrows⟩

theorem firstFit_yields (hw : o.Within pool) (hv : pool.vms.get? v = some vm)
    (hs : vm.host = some source) (skip : Std.TreeSet HostId) (targets : List HostId) :
    Yields pool.Overflows (fun _ => True) (o.firstFit vm.demand source skip upper targets) := by
  induction targets with
  | nil => trivial
  | cons target rest ih =>
    rw [firstFit]
    split
    · exact ih
    · rename_i hnot
      simp only [not_or, Bool.not_eq_true, Bool.not_eq_false', hw.pool_eq] at hnot
      refine (fits_yields hw hv hs (Ne.symm hnot.1) hnot.2.2).bind fun fit _ _ => ?_
      cases fit with
      | false => exact ih
      | true => trivial

end Outlook

/-! ### Planning a migration -/

theorem moveDemand_of_add {view : Tally.View α} {demand : Resources α} {left taken : PlannedLoad α}
    {projected committed : Resources α} (hne : source ≠ target)
    (hleft : view source = .ok left) (htaken : view target = .ok taken)
    (hp : taken.projected.add demand = .ok projected)
    (hc : taken.committed.add demand = .ok committed) :
    ∃ view', view.moveDemand source target demand = .ok view' := by
  have hgrown : taken.plus demand = .ok ⟨projected, committed⟩ := by
    rw [PlannedLoad.plus, hp, Checked.ok_bind, hc]
    rfl
  rw [Tally.View.moveDemand, hleft, Checked.ok_bind, htaken, Checked.ok_bind]
  dsimp only
  rw [if_neg hne.symm, htaken, Checked.ok_bind, hgrown]
  exact ⟨_, rfl⟩

/-- Where there is room, the demand moves, and loads stay within the capacity. -/
theorem Outlook.Within.moveDemand (hw : o.Within pool) {demand : Resources α}
    (hne : source ≠ target) (hs : pool.hosts.contains source = true)
    (hroom : o.HasRoom target demand) :
    ∃ view, o.view.moveDemand source target demand = .ok view
      ∧ ∀ o' : Outlook α, o'.pool = pool → o'.view = view → o'.Within pool := by
  obtain ⟨shost, hshost⟩ := Option.isSome_iff_exists.mp hs
  obtain ⟨left, hleft, hleftBounds⟩ := hw.loads source shost hshost
  obtain ⟨taken, host, htaken, hh, hshort⟩ := hroom.shortage_eq_none
  rw [hw.pool_eq] at hh
  obtain ⟨taken', htaken', hbounds⟩ := hw.loads target host hh
  rw [htaken, Except.ok.injEq] at htaken'
  subst htaken'
  have hfree := ((Resources.shortage_eq_none_iff _ _).mp hshort).2
  -- The demand fits beside what is committed, so it fits beside what is projected.
  have hadd : ∀ k, taken.committed.stock k + demand.stock k ≤ host.capacity.stock k := by
    intro k
    have hk := hfree k
    have hcommitted := (hbounds k).2
    rw [Resources.stock_sub] at hk
    omega
  have hword := host.capacity.stock_lt
  obtain ⟨projected, hp⟩ : ∃ projected, taken.projected.add demand = .ok projected :=
    Resources.add_eq_ok fun k => by
      have hk := hadd k
      have hle := (hbounds k).1
      have hlt := hword k
      omega
  obtain ⟨committed, hc⟩ : ∃ committed, taken.committed.add demand = .ok committed :=
    Resources.add_eq_ok fun k => Nat.lt_of_le_of_lt (hadd k) (hword k)
  obtain ⟨view, hview⟩ := moveDemand_of_add hne hleft htaken hp hc
  refine ⟨view, hview, fun o' hpool hafter => ⟨hpool, fun g ghost hg => ?_⟩⟩
  obtain ⟨left', taken', projected', committed', hleft', htaken', hp', hc', hload⟩ :=
    moveDemand_eq_ok hne hview
  rw [hleft, Except.ok.injEq] at hleft'
  rw [htaken, Except.ok.injEq] at htaken'
  subst hleft' htaken'
  rw [hafter, hload]
  split
  · rename_i hgt
    subst hgt
    rw [hh, Option.some.injEq] at hg
    subst hg
    refine ⟨_, rfl, fun k => ?_⟩
    have hprojected := ((Resources.add_eq_ok_iff _ _ _).mp hp').2 k
    have hcommitted := ((Resources.add_eq_ok_iff _ _ _).mp hc').2 k
    have hk := hadd k
    have hle := (hbounds k).1
    dsimp only
    omega
  · split
    · rename_i hgs
      subst hgs
      rw [hshost, Option.some.injEq] at hg
      subst hg
      refine ⟨_, rfl, fun k => ?_⟩
      have hk := hleftBounds k
      dsimp only
      rw [Resources.stock_sub]
      omega
    · exact hw.loads g ghost hg

variable {p : Planner α}

/-- A VM that stays on a known host is planned for a target with room. -/
theorem plan_within (hw : p.outlook.Within pool) (hr : pool.Reachable)
    (hv : pool.vms.get? v = some vm) (hs : vm.host = some source) (hne : source ≠ target)
    (hroom : p.outlook.HasRoom target vm.demand) (reason : MigrationReason) :
    ∃ m p', p.plan v source target reason = .ok (m, p') ∧ p'.outlook.Within pool := by
  obtain ⟨shost, hshost⟩ := hr.ownership.exists_host hv hs
  have hsource : pool.hosts.contains source = true := Option.isSome_iff_exists.mpr ⟨shost, hshost⟩
  obtain ⟨view, hview, hwithin⟩ := hw.moveDemand hne hsource hroom
  obtain ⟨-, thost, -, hthost, -⟩ := hroom.shortage_eq_none
  rw [hw.pool_eq] at hthost
  obtain ⟨sourceState, hsourceState⟩ := hr.capture_eq_ok hshost
  obtain ⟨targetState, htargetState⟩ := hr.capture_eq_ok hthost
  obtain ⟨tally, htally, hafter⟩ :=
    (Tally.moveDemand_agrees p.tally p.pool source target vm.demand).eq_ok_right hview
  have hpool : p.pool = pool := hw.pool_eq
  rw [hpool] at htally
  rw [Planner.plan, hpool, (Pool.vm_eq_ok_iff _ _ _).mpr hv, Checked.ok_bind, htally,
    Checked.ok_bind, Migration.plan, hsourceState, Checked.ok_bind, htargetState]
  exact ⟨_, _, rfl, hwithin _ rfl (hpool ▸ hafter)⟩

/-! ### Calls -/

theorem Outlook.Within.isRelieved_eq_ok (hw : o.Within pool) {h : HostId}
    (hh : pool.hosts.contains h = true) (upper : α) :
    ∃ relieved, o.isRelieved h upper = .ok relieved := by
  obtain ⟨host, hhost⟩ := Option.isSome_iff_exists.mp hh
  obtain ⟨load, hl, -⟩ := hw.loads h host hhost
  rw [← hw.pool_eq] at hhost
  exact ⟨_, Planner.isRelieved_eq_ok (cpuUtilization_eq_ok hl hhost)
    (ramUtilization_eq_ok hl hhost)⟩

variable {targets : List HostId} {excluded : Std.TreeSet HostId} {vms : List VmId}

theorem firstFit_yields (hw : p.outlook.Within pool) (hv : pool.vms.get? v = some vm)
    (hs : vm.host = some source) (skip : Std.TreeSet HostId) (targets : List HostId) :
    Yields pool.Overflows (fun r => r.2.outlook = p.outlook)
      (p.firstFit vm.demand source skip upper targets) :=
  .of_agree (firstFit_agrees ..) (Outlook.firstFit_yields hw hv hs skip targets)
    fun _ _ hr _ => hr.outlook

/-- The first candidate is planned for the target that was found for it. -/
theorem planFirst {asked : Planner α} (hr : pool.Reachable) (hw : p.outlook.Within pool)
    (hc : p.outlook.Candidates source (v :: vms)) (hv : p.pool.vms.get? v = some vm)
    (hasked : p.firstFit vm.demand source excluded upper targets = .ok (some target, asked))
    (reason : MigrationReason) :
    ∃ m p', asked.plan v source target reason = .ok (m, p') ∧ p'.outlook.Within pool
      ∧ p'.outlook.Candidates source vms := by
  obtain ⟨vm', hv', hs, -⟩ := hc.stays v List.mem_cons_self
  obtain rfl : vm = vm' := Option.some.inj (hv.symm.trans hv')
  obtain ⟨hfit, hsame⟩ := eq_ok_of_agrees (firstFit_agrees ..) hasked
  obtain ⟨-, hne, -, hfits⟩ := Outlook.firstFit_eq_some hfit
  have hpool : p.pool = pool := hw.pool_eq
  obtain ⟨m, p', hplan, hw'⟩ := plan_within (hsame ▸ hw) hr (hpool ▸ hv) hs hne.symm
    (hsame ▸ ⟨upper, hfits⟩) reason
  obtain ⟨-, -, hrest⟩ := StepBelow.of_plan hc hv hfit hsame hplan
  exact ⟨m, p', hplan, hw', hrest⟩

theorem distributeVms_yields (hr : pool.Reachable) (hw : p.outlook.Within pool)
    (hc : p.outlook.Candidates source vms) :
    Yields pool.Overflows (fun r => r.2.outlook.Within pool)
      (p.distributeVms source targets upper vms) := by
  induction vms generalizing p with
  | nil => exact hw
  | cons v rest ih =>
    obtain ⟨vm, hv, hs, -⟩ := hc.stays v List.mem_cons_self
    have hpool : p.pool = pool := hw.pool_eq
    have hv' : pool.vms.get? v = some vm := hpool ▸ hv
    rw [distributeVms, hpool, (Pool.vm_eq_ok_iff _ _ _).mpr hv', Checked.ok_bind]
    refine (firstFit_yields hw hv' hs ∅ targets).bind ?_
    rintro ⟨choice, asked⟩ hasked hsame
    cases choice with
    | none => exact ih (hsame ▸ hw) (hsame ▸ hc.tail)
    | some target =>
      obtain ⟨m, p', hplan, hw', hrest⟩ := planFirst hr hw hc hv hasked .distribute
      obtain ⟨shost, hshost⟩ := hr.ownership.exists_host hv' hs
      obtain ⟨relieved, hrelieved⟩ := hw'.isRelieved_eq_ok
        (Option.isSome_iff_exists.mpr ⟨shost, hshost⟩) upper
      obtain ⟨⟨_, next⟩, hnext, rfl, hnextSame⟩ :=
        (isRelieved_agrees p' source upper).eq_ok_right hrelieved
      rw [← hnextSame] at hw' hrest
      dsimp only
      rw [hplan, Checked.ok_bind]
      dsimp only
      rw [hnext, Checked.ok_bind]
      dsimp only
      split
      · exact hw'
      · exact (ih hw' hrest).bind fun _ _ hlast => hlast

theorem emptyVms_yields (hr : pool.Reachable) (hw : p.outlook.Within pool)
    (hc : p.outlook.Candidates source vms) :
    Yields pool.Overflows (fun r => r.2.outlook.Within pool)
      (p.emptyVms source targets excluded upper vms) := by
  induction vms generalizing p with
  | nil => exact hw
  | cons v rest ih =>
    obtain ⟨vm, hv, hs, -⟩ := hc.stays v List.mem_cons_self
    have hpool : p.pool = pool := hw.pool_eq
    have hv' : pool.vms.get? v = some vm := hpool ▸ hv
    rw [emptyVms, hpool, (Pool.vm_eq_ok_iff _ _ _).mpr hv', Checked.ok_bind]
    refine (firstFit_yields hw hv' hs excluded targets).bind ?_
    rintro ⟨choice, asked⟩ hasked hsame
    cases choice with
    | none =>
      have hlast : asked.outlook.Within pool := hsame ▸ hw
      exact hlast
    | some target =>
      obtain ⟨m, p', hplan, hw', hrest⟩ := planFirst hr hw hc hv hasked .consolidate
      dsimp only
      rw [hplan, Checked.ok_bind]
      exact (ih hw' hrest).bind fun _ _ hlast => hlast

/-- The candidates can be listed, whatever the source. -/
theorem candidateVms_eq_ok (hr : pool.Reachable) (hpool : p.pool = pool) (source : HostId) :
    ∃ vms, p.candidateVms source = .ok vms ∧ p.outlook.Candidates source vms := by
  obtain ⟨migratable, hm⟩ := hr.migratableVms_eq_ok source
  have hvms : p.candidateVms source
      = .ok (migratable.filter fun v => !p.plannedVms.contains v) := by
    rw [Planner.candidateVms, hpool, hm]
    rfl
  exact ⟨_, hvms, candidates_of_candidateVms (hpool.symm ▸ hr.ownership) hvms⟩

theorem distribute_yields (hr : pool.Reachable) (hw : p.outlook.Within pool) (source : HostId)
    (targets : List HostId) (upper : α) :
    Yields pool.Overflows (fun r => r.2.outlook.Within pool)
      (p.distribute source targets upper) := by
  obtain ⟨vms, hvms, hc⟩ := candidateVms_eq_ok hr hw.pool_eq source
  rw [distribute, hvms]
  exact distributeVms_yields hr hw hc

theorem consolidate_yields (hr : pool.Reachable) (hw : p.outlook.Within pool) (source : HostId)
    (targets : List HostId) (excluded : Std.TreeSet HostId) (upper : α) :
    Yields pool.Overflows (fun r => r.2.outlook.Within pool)
      (p.consolidate source targets excluded upper) := by
  rw [consolidate]
  split
  · exact hw
  · rename_i hknown
    have hpool : p.pool = pool := hw.pool_eq
    simp only [Bool.not_eq_true', Bool.not_eq_false, hpool] at hknown
    obtain ⟨host, hh⟩ := Option.isSome_iff_exists.mp hknown
    obtain ⟨vms, hvms, hc⟩ := candidateVms_eq_ok hr hpool source
    rw [hvms, Checked.ok_bind]
    refine (emptyVms_yields hr hw hc).bind ?_
    rintro ⟨moved, planned⟩ - hlast
    obtain ⟨load, hl, -⟩ := hlast.loads source host hh
    obtain ⟨⟨_, tally⟩, hload, rfl, hsame⟩ :=
      (Tally.load_agrees planned.tally planned.pool source).eq_ok_right hl
    dsimp only
    rw [hload, Checked.ok_bind]
    dsimp only
    split
    · exact hw
    · have hkept : ({ planned with tally } : Planner α).outlook.Within pool :=
        outlook_with_tally hsame ▸ hlast
      exact hkept

/-- A call is answered, and the planner stays within the capacity, or a sum of memory exceeds a
word. -/
theorem answer_yields (hr : pool.Reachable) (hw : p.outlook.Within pool) (call : Call α) :
    Yields pool.Overflows (fun r => r.2.outlook.Within pool) (call.answer p) := by
  cases call with
  | distribute source targets upper => exact distribute_yields hr hw source targets upper
  | consolidate source targets excluded upper =>
    exact consolidate_yields hr hw source targets excluded upper

theorem answers_yields (hr : pool.Reachable) (hw : p.outlook.Within pool) (calls : List (Call α)) :
    Yields pool.Overflows (fun r => r.2.outlook.Within pool) (p.answers calls) := by
  induction calls generalizing p with
  | nil => exact hw
  | cons call rest ih =>
    rw [answers]
    refine (answer_yields hr hw call).bind fun r _ hbetween => ?_
    exact (ih hbetween).bind fun _ _ hlast => hlast

end Planner

end Datacenter
