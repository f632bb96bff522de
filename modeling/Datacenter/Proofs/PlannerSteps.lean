import Datacenter.Proofs.Outlooks
import Datacenter.Proofs.Ownership

/-!
# How plans come about

A planner plans one migration after the other. A step plans a VM that stays on the source and is not
planned yet, and takes it to another host on which the tally has room for it below the threshold of
the call. What a planner answers to a call is made by such steps, and a call that plans nothing
leaves the outlook of the planner as it was.

Main statements: `StepBelow.of_plan`, `distributes_of_distribute` and `consolidate_below`.
-/

namespace Datacenter

/-! ### Checked filters -/

theorem Checked.filterAuxM_eq_ok {β : Type} {f : β → Checked Bool} {xs acc ys : List β}
    (h : List.filterAuxM f xs acc = .ok ys) :
    ∃ kept : List β, ys = kept.reverse ++ acc ∧ kept.Sublist xs
      ∧ (∀ x ∈ kept, f x = .ok true) ∧ ∀ x ∈ xs, f x = .ok true → x ∈ kept := by
  induction xs generalizing acc with
  | nil =>
    rw [List.filterAuxM, Checked.pure_eq_ok, Except.ok.injEq] at h
    exact ⟨[], h.symm, List.Sublist.refl _, List.forall_mem_nil _, List.forall_mem_nil _⟩
  | cons x xs ih =>
    rw [List.filterAuxM, Checked.bind_eq_ok_iff] at h
    obtain ⟨keep, hx, hrest⟩ := h
    obtain ⟨kept, hys, hsub, hall, hmem⟩ := ih hrest
    cases keep with
    | false =>
      refine ⟨kept, hys, hsub.cons x, hall, List.forall_mem_cons.mpr ⟨fun htrue => ?_, hmem⟩⟩
      rw [hx] at htrue
      cases htrue
    | true =>
      refine ⟨x :: kept, ?_, hsub.cons_cons x, List.forall_mem_cons.mpr ⟨hx, hall⟩,
        List.forall_mem_cons.mpr ⟨fun _ => List.mem_cons_self, fun y hy htrue => ?_⟩⟩
      · rw [hys, cond_true, List.reverse_cons, List.append_assoc, List.singleton_append]
      · exact List.mem_cons_of_mem x (hmem y hy htrue)

theorem Checked.filterM_eq_ok {β : Type} {f : β → Checked Bool} {xs ys : List β}
    (h : xs.filterM f = .ok ys) :
    ys.Sublist xs ∧ (∀ x ∈ ys, f x = .ok true) ∧ ∀ x ∈ xs, f x = .ok true → x ∈ ys := by
  rw [List.filterM, Checked.bind_eq_ok_iff] at h
  obtain ⟨zs, hzs, hys⟩ := h
  obtain ⟨kept, rfl, hsub, hall, hmem⟩ := filterAuxM_eq_ok hzs
  rw [Checked.pure_eq_ok, Except.ok.injEq, List.append_nil, List.reverse_reverse] at hys
  subst hys
  exact ⟨hsub, hall, hmem⟩

variable {α : Type}

/-! ### VMs that may be planned -/

/-- The VM runs on the host and moves nowhere. -/
def Pool.StaysOn (pool : Pool α) (h : HostId) (v : VmId) : Prop :=
  ∃ vm, pool.vms.get? v = some vm ∧ vm.host = some h ∧ vm.migrationTarget = none

theorem Pool.Ownership.migratableVms [Scalar α] {pool : Pool α} (own : pool.Ownership) {h : HostId}
    {vms : List VmId} (hm : pool.migratableVms h = .ok vms) :
    vms.Nodup ∧ ∀ v ∈ vms, pool.StaysOn h v := by
  rw [Pool.migratableVms] at hm
  cases hh : pool.hosts.get? h with
  | none =>
    rw [hh, Except.ok.injEq] at hm
    subst hm
    exact ⟨List.nodup_nil, by simp⟩
  | some host =>
    simp only [hh, Checked.bind_eq_ok_iff, Checked.pure_eq_ok, Except.ok.injEq] at hm
    obtain ⟨staying, hs, rfl⟩ := hm
    obtain ⟨hsub, hall, -⟩ := Checked.filterM_eq_ok hs
    have hperm := insertionSort_perm (fun a b : VmId => decide (a < b)) staying
    refine ⟨hperm.nodup_iff.mpr (hsub.nodup host.resident.nodup_keys), fun v hv => ?_⟩
    have hstay := hperm.mem_iff.mp hv
    obtain ⟨d, hd⟩ := (Table.mem_keys_iff _ _).mp (hsub.subset hstay)
    rw [← Pool.residentShare_of_get? hh, own.resident, Pool.placedDemand_eq_some_iff] at hd
    obtain ⟨vm, hvm, hhost, -⟩ := hd
    have htest := hall v hstay
    rw [(Pool.vm_eq_ok_iff _ _ _).mpr hvm, Checked.ok_bind, Except.ok.injEq,
      Bool.not_eq_true', Vm.isMigrating, Option.isSome_eq_false_iff,
      Option.isNone_iff_eq_none] at htest
    exact ⟨vm, hvm, hhost, htest⟩

theorem Pool.Ownership.mem_migratableVms [Scalar α] {pool : Pool α} (own : pool.Ownership)
    {h : HostId} {vms : List VmId} (hm : pool.migratableVms h = .ok vms) {v : VmId}
    (hs : pool.StaysOn h v) : v ∈ vms := by
  obtain ⟨vm, hv, hhost, htarget⟩ := hs
  have hshare := own.resident_of_get? hv h
  rw [if_pos hhost, Pool.residentShare, Option.bind_eq_some_iff] at hshare
  obtain ⟨host, hh, hresident⟩ := hshare
  simp only [Pool.migratableVms, hh, Checked.bind_eq_ok_iff, Checked.pure_eq_ok,
    Except.ok.injEq] at hm
  obtain ⟨staying, hstaying, rfl⟩ := hm
  obtain ⟨-, -, hmem⟩ := Checked.filterM_eq_ok hstaying
  refine (insertionSort_perm _ _).mem_iff.mpr (hmem v ?_ ?_)
  · exact (Table.mem_keys_iff _ _).mpr ⟨_, hresident⟩
  · rw [(Pool.vm_eq_ok_iff _ _ _).mpr hv, Checked.ok_bind, Vm.isMigrating, htarget]
    rfl

namespace Planner

/-- The VMs are different ones that stay on the source and are not planned yet. -/
structure Outlook.Candidates (o : Outlook α) (source : HostId) (vms : List VmId) : Prop where
  nodup : vms.Nodup
  stays : ∀ v ∈ vms, o.pool.StaysOn source v
  unplanned : ∀ v ∈ vms, o.plannedVms.contains v = false

theorem Outlook.Candidates.tail {o : Outlook α} {source : HostId} {v : VmId} {vms : List VmId}
    (h : o.Candidates source (v :: vms)) : o.Candidates source vms where
  nodup := (List.nodup_cons.mp h.nodup).2
  stays w hw := h.stays w (List.mem_cons_of_mem _ hw)
  unplanned w hw := h.unplanned w (List.mem_cons_of_mem _ hw)

variable [Scalar α]

theorem candidates_of_candidateVms {p : Planner α} (own : p.pool.Ownership) {source : HostId}
    {vms : List VmId} (h : p.candidateVms source = .ok vms) : p.outlook.Candidates source vms := by
  simp only [candidateVms, Checked.bind_eq_ok_iff, Checked.pure_eq_ok, Except.ok.injEq] at h
  obtain ⟨migratable, hm, rfl⟩ := h
  obtain ⟨hnodup, hstays⟩ := own.migratableVms hm
  refine ⟨hnodup.filter _, fun v hv => hstays v (List.mem_filter.mp hv).1, fun v hv => ?_⟩
  have hkept : p.plannedVms.contains v = false := by simpa using (List.mem_filter.mp hv).2
  exact hkept

theorem mem_candidateVms {p : Planner α} (own : p.pool.Ownership) {source : HostId}
    {vms : List VmId} (h : p.candidateVms source = .ok vms) {v : VmId}
    (hs : p.pool.StaysOn source v) (hv : p.plannedVms.contains v = false) : v ∈ vms := by
  simp only [candidateVms, Checked.bind_eq_ok_iff, Checked.pure_eq_ok, Except.ok.injEq] at h
  obtain ⟨migratable, hm, rfl⟩ := h
  exact List.mem_filter.mpr ⟨own.mem_migratableVms hm hs, by rw [hv]; rfl⟩

/-! ### Targets -/

theorem fits_eq_true {view : Tally.View α} {pool : Pool α} {h : HostId} {demand : Resources α}
    {upper : α} (hfits : view.fits pool h demand upper = .ok true) :
    ∃ load host ram, view h = .ok load ∧ pool.hosts.get? h = some host
      ∧ addWords load.projected.ram demand.ram = .ok ram
      ∧ ¬upper ≤ (load.projected.mips + demand.mips) / host.totalMips
      ∧ ¬upper ≤ Scalar.ofNat ram.toNat / Scalar.ofNat host.ram.toNat
      ∧ (host.capacity.sub load.committed).shortage demand = none := by
  simp only [Tally.View.fits, PlannedLoad.fits, Checked.bind_eq_ok_iff,
    Pool.host_eq_ok_iff] at hfits
  obtain ⟨load, hl, host, hh, ram, hram, hfit⟩ := hfits
  split at hfit
  · cases hfit
  · rename_i hbelow
    rw [Checked.pure_eq_ok, Except.ok.injEq, Option.isNone_iff_eq_none] at hfit
    exact ⟨load, host, ram, hl, hh, hram, fun h => hbelow (.inl h), fun h => hbelow (.inr h), hfit⟩

namespace Outlook

variable {o : Outlook α} {demand : Resources α} {source target : HostId}
  {skip : Std.TreeSet HostId} {upper : α} {targets : List HostId}

/-- There is room for a demand on a host, below some threshold. -/
def HasRoom (o : Outlook α) (target : HostId) (demand : Resources α) : Prop :=
  ∃ upper, o.view.fits o.pool target demand upper = .ok true

theorem HasRoom.shortage_eq_none (h : o.HasRoom target demand) :
    ∃ load host, o.view target = .ok load ∧ o.pool.hosts.get? target = some host
      ∧ (host.capacity.sub load.committed).shortage demand = none := by
  obtain ⟨upper, hfits⟩ := h
  obtain ⟨load, host, -, hl, hh, -, -, -, hfit⟩ := fits_eq_true hfits
  exact ⟨load, host, hl, hh, hfit⟩

/-- The first fitting target is one of the targets, neither the source nor skipped, and has room. -/
theorem firstFit_eq_some (h : o.firstFit demand source skip upper targets = .ok (some target)) :
    target ∈ targets ∧ target ≠ source ∧ skip.contains target = false
      ∧ o.view.fits o.pool target demand upper = .ok true := by
  induction targets with
  | nil =>
    rw [firstFit] at h
    cases h
  | cons t rest ih =>
    rw [firstFit] at h
    split at h
    · obtain ⟨hmem, hothers⟩ := ih h
      exact ⟨List.mem_cons_of_mem _ hmem, hothers⟩
    · rename_i hnot
      rw [Checked.bind_eq_ok_iff] at h
      obtain ⟨fit, hfit, hrest⟩ := h
      cases fit with
      | false =>
        obtain ⟨hmem, hothers⟩ := ih hrest
        exact ⟨List.mem_cons_of_mem _ hmem, hothers⟩
      | true =>
        simp only [if_true, Checked.pure_eq_ok, Except.ok.injEq, Option.some.injEq] at hrest
        subst hrest
        simp only [not_or, Bool.not_eq_true] at hnot
        exact ⟨List.mem_cons_self, hnot.1, hnot.2.1, hfit⟩

theorem fits_of_firstFit_eq_none (h : o.firstFit demand source skip upper targets = .ok none) :
    ∀ t ∈ targets, t ≠ source → skip.contains t = false → o.pool.hosts.contains t = true →
      o.view.fits o.pool t demand upper = .ok false := by
  induction targets with
  | nil => simp
  | cons t rest ih =>
    rw [firstFit] at h
    refine List.forall_mem_cons.mpr ⟨fun hne hskip hknown => ?_, ?_⟩
    · rw [if_neg (by simp [hne, hskip, hknown]), Checked.bind_eq_ok_iff] at h
      obtain ⟨fit, hfit, hrest⟩ := h
      cases fit with
      | false => exact hfit
      | true => cases hrest
    · refine ih ?_
      split at h
      · exact h
      · obtain ⟨fit, hfit, hrest⟩ := (Checked.bind_eq_ok_iff _ _ _).mp h
        cases fit with
        | false => exact hrest
        | true => cases hrest

end Outlook

/-- The demand leaves the projection of the source and counts twice on the target. -/
theorem moveDemand_eq_ok {view view' : Tally.View α} {source target : HostId}
    {demand : Resources α} (hne : source ≠ target)
    (h : view.moveDemand source target demand = .ok view') :
    ∃ left taken projected committed, view source = .ok left ∧ view target = .ok taken
      ∧ taken.projected.add demand = .ok projected ∧ taken.committed.add demand = .ok committed
      ∧ ∀ h, view' h = if h = target then .ok ⟨projected, committed⟩
        else if h = source then .ok ⟨left.projected.sub demand, left.committed⟩
        else view h := by
  simp only [Tally.View.moveDemand, PlannedLoad.plus, Checked.bind_eq_ok_iff, Checked.pure_eq_ok,
    Except.ok.injEq, if_neg hne.symm] at h
  obtain ⟨left, hleft, taken, htaken, taken', htaken', _, ⟨projected, hp, committed, hc, rfl⟩,
    rfl⟩ := h
  rw [htaken, Except.ok.injEq] at htaken'
  subst htaken'
  exact ⟨left, taken, projected, committed, hleft, htaken, hp, hc, fun g => rfl⟩

/-! ### Steps -/

/-- One migration is planned. -/
structure Outlook.Step (p : Outlook α) (m : Migration α) (p' : Outlook α) : Prop where
  stays : p.pool.StaysOn m.source m.vm
  unplanned : p.plannedVms.contains m.vm = false
  ne : m.source ≠ m.target
  room : ∀ vm, p.pool.vms.get? m.vm = some vm → p.HasRoom m.target vm.demand
  view : ∀ vm, p.pool.vms.get? m.vm = some vm →
    p.view.moveDemand m.source m.target vm.demand = .ok p'.view
  pool : p'.pool = p.pool
  plannedVms : p'.plannedVms = p.plannedVms.insert m.vm

theorem Outlook.Step.unplanned_iff {p p' : Outlook α} {m : Migration α} (h : p.Step m p')
    (v : VmId) :
    p'.plannedVms.contains v = false ↔ v ≠ m.vm ∧ p.plannedVms.contains v = false := by
  rw [h.plannedVms, Std.TreeSet.contains_insert, Bool.or_eq_false_iff, beq_eq_false_iff_ne, Ne,
    Nat.compare_eq_eq, eq_comm]

/-- Migrations that are planned one after the other. -/
inductive Planned : Outlook α → List (Migration α) → Outlook α → Prop where
  | nil (p : Outlook α) : Planned p [] p
  | cons {p between p' : Outlook α} {m : Migration α} {ms : List (Migration α)}
      (h : p.Step m between) (rest : Planned between ms p') : Planned p (m :: ms) p'

theorem Planned.pool_eq {p p' : Outlook α} {ms : List (Migration α)} (h : Planned p ms p') :
    p'.pool = p.pool := by
  induction h with
  | nil => rfl
  | cons h _ ih => exact ih.trans h.pool

theorem Planned.append {p between p' : Outlook α} {ms later : List (Migration α)}
    (h : Planned p ms between) (hlater : Planned between later p') :
    Planned p (ms ++ later) p' := by
  induction h with
  | nil => exact hlater
  | cons h _ ih => exact .cons h (ih hlater)

/-! ### Migrations of a plan -/

/-- The VM stays on the source, and the target is another known host. -/
structure Suits (pool : Pool α) (m : Migration α) : Prop where
  stays : pool.StaysOn m.source m.vm
  ne : m.source ≠ m.target
  known : pool.hosts.contains m.target = true

theorem Outlook.Step.suits {p p' : Outlook α} {m : Migration α} (h : p.Step m p') :
    Suits p.pool m := by
  obtain ⟨vm, hv, -⟩ := h.stays
  obtain ⟨load, host, -, hh, -⟩ := (h.room vm hv).shortage_eq_none
  refine ⟨h.stays, h.ne, ?_⟩
  rw [Table.contains, hh, Option.isSome_some]

theorem Planned.suits {p p' : Outlook α} {ms : List (Migration α)} (h : Planned p ms p') :
    ∀ m ∈ ms, Suits p.pool m := by
  induction h with
  | nil => simp
  | cons hs _ ih =>
    intro x hx
    rcases List.mem_cons.mp hx with rfl | hx
    · exact hs.suits
    · rw [← hs.pool]
      exact ih x hx

theorem Planned.nodup {p p' : Outlook α} {ms : List (Migration α)} (h : Planned p ms p') :
    (ms.map (·.vm)).Nodup ∧ ∀ m ∈ ms, p.plannedVms.contains m.vm = false := by
  induction h with
  | nil => simp
  | @cons p between p' m ms hs _ ih =>
    obtain ⟨hnodup, hfree⟩ := ih
    have hother : ∀ x ∈ ms, x.vm ≠ m.vm ∧ p.plannedVms.contains x.vm = false :=
      fun x hx => (hs.unplanned_iff x.vm).mp (hfree x hx)
    rw [List.map_cons, List.nodup_cons]
    refine ⟨⟨fun hmem => ?_, hnodup⟩, fun x hx => ?_⟩
    · obtain ⟨x, hx, heq⟩ := List.mem_map.mp hmem
      exact (hother x hx).1 heq
    · rcases List.mem_cons.mp hx with rfl | hx
      · exact hs.unplanned
      · exact (hother x hx).2

/-! ### Steps below a threshold -/

/-- One migration is planned, and its target stays below the threshold. -/
structure StepBelow (upper : α) (p : Outlook α) (m : Migration α) (p' : Outlook α) : Prop
    extends p.Step m p' where
  fits : ∀ vm, p.pool.vms.get? m.vm = some vm →
    p.view.fits p.pool m.target vm.demand upper = .ok true
  plannedTargets : p'.plannedTargets = p.plannedTargets.insert m.target

/-- Migrations that are planned one after the other under one threshold. -/
inductive PlannedBelow (upper : α) : Outlook α → List (Migration α) → Outlook α → Prop where
  | nil (p : Outlook α) : PlannedBelow upper p [] p
  | cons {p between p' : Outlook α} {m : Migration α} {ms : List (Migration α)}
      (h : StepBelow upper p m between) (rest : PlannedBelow upper between ms p') :
      PlannedBelow upper p (m :: ms) p'

section

variable {upper : α} {P : Migration α → Prop} {p between p' : Outlook α} {m : Migration α}
  {ms later : List (Migration α)}

theorem StepBelow.isPlannedTarget_iff (h : StepBelow upper p m p') (g : HostId) :
    p'.isPlannedTarget g = true ↔ m.target = g ∨ p.isPlannedTarget g = true := by
  rw [Outlook.isPlannedTarget, h.plannedTargets, Std.TreeSet.contains_insert, Bool.or_eq_true,
    beq_iff_eq, Nat.compare_eq_eq, Outlook.isPlannedTarget]

namespace PlannedBelow

theorem planned (h : PlannedBelow upper p ms p') : Planned p ms p' := by
  induction h with
  | nil p => exact .nil p
  | cons h _ ih => exact .cons h.toStep ih

/-- Where nothing is planned, no answer changes. -/
theorem outlook_eq (h : PlannedBelow upper p [] p') : p = p' := by
  cases h
  rfl

theorem append (h : PlannedBelow upper p ms between)
    (hlater : PlannedBelow upper between later p') : PlannedBelow upper p (ms ++ later) p' := by
  induction h with
  | nil => exact hlater
  | cons h _ ih => exact .cons h (ih hlater)

/-- The planned targets are those of the migrations, and those from before. -/
theorem isPlannedTarget_iff (h : PlannedBelow upper p ms p') (g : HostId) :
    p'.isPlannedTarget g = true ↔ (∃ m ∈ ms, m.target = g) ∨ p.isPlannedTarget g = true := by
  induction h with
  | nil p => simp
  | cons h _ ih =>
    rw [ih, h.isPlannedTarget_iff]
    simp only [List.mem_cons, exists_eq_or_imp, or_assoc, or_left_comm]

theorem nil_all (p : Outlook α) :
    PlannedBelow upper p [] p ∧ ∀ m ∈ ([] : List (Migration α)), P m :=
  ⟨.nil p, List.forall_mem_nil P⟩

theorem cons_all (hs : StepBelow upper p m between) (hm : P m)
    (h : PlannedBelow upper between ms p' ∧ ∀ x ∈ ms, P x) :
    PlannedBelow upper p (m :: ms) p' ∧ ∀ x ∈ m :: ms, P x :=
  ⟨.cons hs h.1, List.forall_mem_cons.mpr ⟨hm, h.2⟩⟩

end PlannedBelow

end

/-- The migration moves a VM off the source to one of the targets that are not skipped. -/
structure Follows (source : HostId) (targets : List HostId) (skip : Std.TreeSet HostId)
    (m : Migration α) : Prop where
  source : m.source = source
  target : m.target ∈ targets
  notSkipped : skip.contains m.target = false

theorem plan_eq_ok {p p' : Planner α} {v : VmId} {source target : HostId} {m : Migration α}
    {reason : MigrationReason} (h : p.plan v source target reason = .ok (m, p')) :
    ∃ vm, p.pool.vms.get? v = some vm ∧ m.vm = v ∧ m.source = source ∧ m.target = target
      ∧ m.reason = reason
      ∧ p.outlook.view.moveDemand source target vm.demand = .ok p'.outlook.view
      ∧ p'.pool = p.pool ∧ p'.plannedVms = p.plannedVms.insert v
      ∧ p'.plannedTargets = p.plannedTargets.insert target := by
  simp only [plan, Migration.plan, Checked.bind_eq_ok_iff, Pool.vm_eq_ok_iff, Checked.pure_eq_ok,
    Except.ok.injEq, Prod.mk.injEq] at h
  obtain ⟨vm, hv, tally, ht, _, ⟨sourceState, -, targetState, -, rfl⟩, rfl, rfl⟩ := h
  obtain ⟨view, hview, rfl⟩ :=
    (Tally.moveDemand_agrees p.tally p.pool source target vm.demand).eq_ok_left ht
  exact ⟨vm, hv, rfl, rfl, rfl, rfl, hview, rfl, rfl, rfl⟩

/-- Planning the first candidate for its first fitting target is a step, after which the other
candidates are still candidates. -/
theorem StepBelow.of_plan {p asked p' : Planner α} {source target : HostId} {targets : List HostId}
    {skip : Std.TreeSet HostId} {upper : α} {v : VmId} {vm : Vm α} {rest : List VmId}
    {reason : MigrationReason} {m : Migration α} (hc : p.outlook.Candidates source (v :: rest))
    (hv : p.pool.vms.get? v = some vm)
    (hfit : p.outlook.firstFit vm.demand source skip upper targets = .ok (some target))
    (hsame : asked.outlook = p.outlook) (h : asked.plan v source target reason = .ok (m, p')) :
    StepBelow upper p.outlook m p'.outlook ∧ (Follows source targets skip m ∧ m.reason = reason)
      ∧ p'.outlook.Candidates source rest := by
  obtain ⟨vm', hv', rfl, rfl, rfl, hreason, hview, hpool, hplanned, htargets⟩ := plan_eq_ok h
  rw [← hsame] at hc hfit ⊢
  obtain ⟨hmem, hne, hskip, hroom⟩ := Outlook.firstFit_eq_some hfit
  have hpools : asked.pool = p.pool := congrArg Outlook.pool hsame
  rw [hpools, hv, Option.some.injEq] at hv'
  subst hv'
  have hrecord : ∀ record, asked.pool.vms.get? m.vm = some record → record = vm := by
    intro record hr
    rw [hpools, hv, Option.some.injEq] at hr
    exact hr.symm
  have hstep : asked.outlook.Step m p'.outlook :=
    { stays := hc.stays _ List.mem_cons_self
      unplanned := hc.unplanned _ List.mem_cons_self
      ne := hne.symm
      room := fun record hr => ⟨upper, hrecord record hr ▸ hroom⟩
      view := fun record hr => hrecord record hr ▸ hview
      pool := hpool
      plannedVms := hplanned }
  refine ⟨⟨hstep, fun record hr => hrecord record hr ▸ hroom, htargets⟩,
    ⟨⟨rfl, hmem, hskip⟩, hreason⟩, hc.tail.nodup, fun w hw => ?_, fun w hw => ?_⟩
  · rw [hstep.pool]
    exact hc.tail.stays w hw
  · have hne : w ≠ m.vm := by
      rintro rfl
      exact (List.nodup_cons.mp hc.nodup).1 hw
    exact (hstep.unplanned_iff w).mpr ⟨hne, hc.tail.unplanned w hw⟩

/-! ### Relieved hosts -/

section

variable {view : Tally.View α} {pool : Pool α} {o : Outlook α} {h : HostId} {host : Host α}
  {load : PlannedLoad α} {upper cpu ram : α}

theorem cpuUtilization_eq_ok (hl : view h = .ok load) (hh : pool.hosts.get? h = some host) :
    view.cpuUtilization pool h = .ok (load.projected.mips / host.totalMips) := by
  rw [Tally.View.cpuUtilization, hl, Checked.ok_bind, (Pool.host_eq_ok_iff _ _ _).mpr hh,
    Checked.ok_bind, Checked.pure_eq_ok, PlannedLoad.cpuUtilization]

theorem ramUtilization_eq_ok (hl : view h = .ok load) (hh : pool.hosts.get? h = some host) :
    view.ramUtilization pool h
      = .ok (Scalar.ofNat load.projected.ram.toNat / Scalar.ofNat host.ram.toNat) := by
  rw [Tally.View.ramUtilization, hl, Checked.ok_bind, (Pool.host_eq_ok_iff _ _ _).mpr hh,
    Checked.ok_bind, Checked.pure_eq_ok, PlannedLoad.ramUtilization]

theorem isRelieved_eq_ok (hcpu : o.view.cpuUtilization o.pool h = .ok cpu)
    (hram : o.view.ramUtilization o.pool h = .ok ram) :
    o.isRelieved h upper = .ok (decide (cpu < upper ∧ ram < upper)) := by
  rw [Outlook.isRelieved, hcpu, Checked.ok_bind]
  by_cases hbelow : cpu < upper
  · simp [hbelow, hram, Checked.ok_bind, Checked.pure_eq_ok]
  · simp [hbelow, Checked.pure_eq_ok]

theorem isRelieved_eq_true (hrelieved : o.isRelieved h upper = .ok true) :
    ∃ cpu ram, o.view.cpuUtilization o.pool h = .ok cpu
      ∧ o.view.ramUtilization o.pool h = .ok ram ∧ cpu < upper ∧ ram < upper := by
  rw [Outlook.isRelieved, Checked.bind_eq_ok_iff] at hrelieved
  obtain ⟨cpu, hcpu, hrelieved⟩ := hrelieved
  split at hrelieved
  · rename_i hbelow
    rw [Checked.bind_eq_ok_iff] at hrelieved
    obtain ⟨ram, hram, hrelieved⟩ := hrelieved
    rw [Checked.pure_eq_ok, Except.ok.injEq, decide_eq_true_iff] at hrelieved
    exact ⟨cpu, ram, hcpu, hram, hbelow, hrelieved⟩
  · cases hrelieved

end

/-! ### Calls -/

/-- How the VMs of a source are distributed: those without a target are passed over, and the first
migration that relieves the source is the last one. -/
inductive Distributes (source : HostId) (targets : List HostId) (upper : α) :
    Outlook α → List VmId → List (Migration α) → Outlook α → Prop where
  | done (p : Outlook α) : Distributes source targets upper p [] [] p
  | skip {p p' : Outlook α} {v : VmId} {vm : Vm α} {vms : List VmId} {ms : List (Migration α)}
      (hv : p.pool.vms.get? v = some vm)
      (hfit : p.firstFit vm.demand source ∅ upper targets = .ok none)
      (rest : Distributes source targets upper p vms ms p') :
      Distributes source targets upper p (v :: vms) ms p'
  | last {p p' : Outlook α} {m : Migration α} (vms : List VmId) (hs : StepBelow upper p m p')
      (hm : Follows source targets ∅ m ∧ m.reason = .distribute)
      (hrelieved : p'.isRelieved source upper = .ok true) :
      Distributes source targets upper p (m.vm :: vms) [m] p'
  | more {p between p' : Outlook α} {m : Migration α} {vms : List VmId}
      {ms : List (Migration α)} (hs : StepBelow upper p m between)
      (hm : Follows source targets ∅ m ∧ m.reason = .distribute)
      (hrelieved : between.isRelieved source upper = .ok false)
      (rest : Distributes source targets upper between vms ms p') :
      Distributes source targets upper p (m.vm :: vms) (m :: ms) p'

theorem distributes_of_distributeVms {p p' : Planner α} {source : HostId} {targets : List HostId}
    {upper : α} {vms : List VmId} {ms : List (Migration α)}
    (hc : p.outlook.Candidates source vms)
    (h : p.distributeVms source targets upper vms = .ok (ms, p')) :
    Distributes source targets upper p.outlook vms ms p'.outlook := by
  induction vms generalizing p p' ms with
  | nil =>
    rw [distributeVms, Except.ok.injEq, Prod.mk.injEq] at h
    obtain ⟨rfl, rfl⟩ := h
    exact .done p.outlook
  | cons v rest ih =>
    simp only [distributeVms, Checked.bind_eq_ok_iff, Pool.vm_eq_ok_iff] at h
    obtain ⟨vm, hv, ⟨choice, asked⟩, hasked, h⟩ := h
    obtain ⟨hfit, hsame⟩ := eq_ok_of_agrees (firstFit_agrees ..) hasked
    cases choice with
    | none =>
      refine .skip hv hfit ?_
      rw [← hsame]
      exact ih (hsame ▸ hc.tail) h
    | some target =>
      simp only [Checked.bind_eq_ok_iff] at h
      obtain ⟨⟨m, between⟩, hplan, ⟨relieved, next⟩, hnext, h⟩ := h
      obtain ⟨hstep, hfollows, hrest⟩ := StepBelow.of_plan hc hv hfit hsame hplan
      obtain ⟨-, -, rfl, -⟩ := plan_eq_ok hplan
      obtain ⟨hrelieved, hnextSame⟩ := eq_ok_of_agrees (isRelieved_agrees ..) hnext
      rw [← hnextSame] at hstep hrest hrelieved
      cases relieved with
      | true =>
        rw [if_pos rfl] at h
        obtain ⟨rfl, rfl⟩ := Checked.pure_pair_eq_ok_iff.mp h
        exact .last rest hstep hfollows hrelieved
      | false =>
        simp only [Bool.false_eq_true, if_false, Checked.bind_eq_ok_iff] at h
        obtain ⟨⟨later, last⟩, hlater, h⟩ := h
        obtain ⟨rfl, rfl⟩ := Checked.pure_pair_eq_ok_iff.mp h
        exact .more hstep hfollows hrelieved (ih hrest hlater)

theorem Distributes.plannedBelow {p p' : Outlook α} {source : HostId} {targets : List HostId}
    {upper : α} {vms : List VmId} {ms : List (Migration α)}
    (h : Distributes source targets upper p vms ms p') :
    PlannedBelow upper p ms p'
      ∧ ∀ m ∈ ms, Follows source targets ∅ m ∧ m.reason = .distribute := by
  induction h with
  | done p => exact PlannedBelow.nil_all p
  | skip _ _ _ ih => exact ih
  | last _ hs hm _ => exact PlannedBelow.cons_all hs hm (PlannedBelow.nil_all _)
  | more hs hm _ _ ih => exact PlannedBelow.cons_all hs hm ih

theorem emptyVms_below {p p' : Planner α} {source : HostId} {targets : List HostId}
    {excluded : Std.TreeSet HostId} {upper : α} {vms : List VmId} {ms : List (Migration α)}
    (hc : p.outlook.Candidates source vms)
    (h : p.emptyVms source targets excluded upper vms = .ok (ms, p')) :
    PlannedBelow upper p.outlook ms p'.outlook
      ∧ ∀ m ∈ ms, Follows source targets excluded m ∧ m.reason = .consolidate := by
  induction vms generalizing p p' ms with
  | nil =>
    rw [emptyVms, Except.ok.injEq, Prod.mk.injEq] at h
    obtain ⟨rfl, rfl⟩ := h
    exact PlannedBelow.nil_all p.outlook
  | cons v rest ih =>
    simp only [emptyVms, Checked.bind_eq_ok_iff, Pool.vm_eq_ok_iff] at h
    obtain ⟨vm, hv, ⟨choice, asked⟩, hasked, h⟩ := h
    obtain ⟨hfit, hsame⟩ := eq_ok_of_agrees (firstFit_agrees ..) hasked
    cases choice with
    | none =>
      obtain ⟨rfl, rfl⟩ := Checked.pure_pair_eq_ok_iff.mp h
      rw [hsame]
      exact PlannedBelow.nil_all p.outlook
    | some target =>
      simp only [Checked.bind_eq_ok_iff] at h
      obtain ⟨⟨m, between⟩, hplan, ⟨later, last⟩, hlater, h⟩ := h
      obtain ⟨rfl, rfl⟩ := Checked.pure_pair_eq_ok_iff.mp h
      obtain ⟨hstep, hfollows, hrest⟩ := StepBelow.of_plan hc hv hfit hsame hplan
      exact PlannedBelow.cons_all hstep hfollows (ih hrest hlater)

theorem distributes_of_distribute {p p' : Planner α} (own : p.pool.Ownership) {source : HostId}
    {targets : List HostId} {upper : α} {ms : List (Migration α)}
    (h : p.distribute source targets upper = .ok (ms, p')) :
    ∃ vms, p.candidateVms source = .ok vms
      ∧ Distributes source targets upper p.outlook vms ms p'.outlook := by
  rw [distribute, Checked.bind_eq_ok_iff] at h
  obtain ⟨vms, hvms, h⟩ := h
  exact ⟨vms, hvms, distributes_of_distributeVms (candidates_of_candidateVms own hvms) h⟩

theorem distribute_below {p p' : Planner α} (own : p.pool.Ownership) {source : HostId}
    {targets : List HostId} {upper : α} {ms : List (Migration α)}
    (h : p.distribute source targets upper = .ok (ms, p')) :
    PlannedBelow upper p.outlook ms p'.outlook
      ∧ ∀ m ∈ ms, Follows source targets ∅ m ∧ m.reason = .distribute := by
  obtain ⟨vms, -, hdistributes⟩ := distributes_of_distribute own h
  exact hdistributes.plannedBelow

/-- Nothing is left of what a consolidation planned, or the source has little left. -/
theorem consolidate_cases {p p' : Planner α} {source : HostId} {targets : List HostId}
    {excluded : Std.TreeSet HostId} {upper : α} {ms : List (Migration α)}
    (h : p.consolidate source targets excluded upper = .ok (ms, p')) :
    ms = [] ∧ p' = p
      ∨ ∃ vms host load planned, p.candidateVms source = .ok vms
        ∧ p.pool.hosts.get? source = some host
        ∧ p.emptyVms source targets excluded upper vms = .ok (ms, planned)
        ∧ p'.outlook = planned.outlook ∧ planned.outlook.view source = .ok load
        ∧ ¬Scalar.epsilon < load.projected.mips ∧ load.projected.ram = 0 := by
  have hnone : (pure ([], p) : Checked (List (Migration α) × Planner α)) = .ok (ms, p') →
      ms = [] ∧ p' = p := by
    intro heq
    exact (Checked.pure_pair_eq_ok_iff.mp heq).imp Eq.symm Eq.symm
  rw [consolidate] at h
  split at h
  · exact .inl (hnone h)
  · rename_i hknown
    rw [Bool.not_eq_true', Bool.not_eq_false, Table.contains, Option.isSome_iff_exists] at hknown
    obtain ⟨host, hh⟩ := hknown
    simp only [Checked.bind_eq_ok_iff] at h
    obtain ⟨vms, hvms, ⟨moved, planned⟩, hempty, ⟨load, tally⟩, hload, h⟩ := h
    split at h
    · exact .inl (hnone h)
    · rename_i hlittle
      obtain ⟨rfl, rfl⟩ := Checked.pure_pair_eq_ok_iff.mp h
      obtain ⟨_, hview, rfl, hsame⟩ := (Tally.load_agrees ..).eq_ok_left hload
      rw [not_or] at hlittle
      have hzero := hlittle.2
      rw [UInt64.lt_iff_toNat_lt, UInt64.toNat_zero, Nat.pos_iff_ne_zero, not_not] at hzero
      exact .inr ⟨vms, host, load, planned, hvms, hh, hempty, outlook_with_tally hsame, hview,
        hlittle.1, UInt64.toNat_inj.mp hzero⟩

theorem consolidate_below {p p' : Planner α} (own : p.pool.Ownership) {source : HostId}
    {targets : List HostId} {excluded : Std.TreeSet HostId} {upper : α}
    {ms : List (Migration α)} (h : p.consolidate source targets excluded upper = .ok (ms, p')) :
    PlannedBelow upper p.outlook ms p'.outlook
      ∧ ∀ m ∈ ms, Follows source targets excluded m ∧ m.reason = .consolidate := by
  rcases consolidate_cases h with ⟨rfl, rfl⟩ | ⟨vms, _, _, planned, hvms, -, hempty, hsame, -⟩
  · exact PlannedBelow.nil_all p'.outlook
  · rw [hsame]
    exact emptyVms_below (candidates_of_candidateVms own hvms) hempty

theorem distribute_planned {p p' : Planner α} (own : p.pool.Ownership) {source : HostId}
    {targets : List HostId} {upper : α} {ms : List (Migration α)}
    (h : p.distribute source targets upper = .ok (ms, p')) :
    Planned p.outlook ms p'.outlook ∧ ∀ m ∈ ms, Follows source targets ∅ m := by
  obtain ⟨hplanned, hall⟩ := distribute_below own h
  exact ⟨hplanned.planned, fun m hm => (hall m hm).1⟩

theorem consolidate_planned {p p' : Planner α} (own : p.pool.Ownership) {source : HostId}
    {targets : List HostId} {excluded : Std.TreeSet HostId} {upper : α}
    {ms : List (Migration α)} (h : p.consolidate source targets excluded upper = .ok (ms, p')) :
    Planned p.outlook ms p'.outlook ∧ ∀ m ∈ ms, Follows source targets excluded m := by
  obtain ⟨hplanned, hall⟩ := consolidate_below own h
  exact ⟨hplanned.planned, fun m hm => (hall m hm).1⟩

/-- What a planner is asked for. -/
inductive Call (α : Type) where
  | distribute (source : HostId) (targets : List HostId) (upper : α)
  | consolidate (source : HostId) (targets : List HostId) (excluded : Std.TreeSet HostId)
    (upper : α)

namespace Call

omit [Scalar α] in
/-- The migration is one that the call may plan. -/
def Allows : Call α → Migration α → Prop
  | .distribute source targets _ => Follows source targets ∅
  | .consolidate source targets excluded _ => Follows source targets excluded

def answer (p : Planner α) : Call α → Checked (List (Migration α) × Planner α)
  | .distribute source targets upper => p.distribute source targets upper
  | .consolidate source targets excluded upper => p.consolidate source targets excluded upper

end Call

/-- What a planner answers to calls that are made one after the other. -/
def answers (p : Planner α) : List (Call α) → Checked (List (List (Migration α)) × Planner α)
  | [] => .ok ([], p)
  | call :: rest => do
    let (migrations, p) ← call.answer p
    let (later, p) ← p.answers rest
    return (migrations :: later, p)

theorem answer_planned {p p' : Planner α} (own : p.pool.Ownership) {call : Call α}
    {ms : List (Migration α)} (h : call.answer p = .ok (ms, p')) :
    Planned p.outlook ms p'.outlook ∧ ∀ m ∈ ms, call.Allows m := by
  cases call with
  | distribute source targets upper => exact distribute_planned own h
  | consolidate source targets excluded upper => exact consolidate_planned own h

theorem answers_planned {p p' : Planner α} (own : p.pool.Ownership) {calls : List (Call α)}
    {plans : List (List (Migration α))} (h : p.answers calls = .ok (plans, p')) :
    Planned p.outlook plans.flatten p'.outlook
      ∧ List.Forall₂ (fun call ms => ∀ m ∈ ms, call.Allows m) calls plans := by
  induction calls generalizing p p' plans with
  | nil =>
    rw [answers, Except.ok.injEq, Prod.mk.injEq] at h
    obtain ⟨rfl, rfl⟩ := h
    exact ⟨.nil p.outlook, .nil⟩
  | cons call rest ih =>
    simp only [answers, Checked.bind_eq_ok_iff] at h
    obtain ⟨⟨ms, between⟩, hanswer, ⟨later, last⟩, hlater, h⟩ := h
    obtain ⟨rfl, rfl⟩ := Checked.pure_pair_eq_ok_iff.mp h
    obtain ⟨hplanned, hall⟩ := answer_planned own hanswer
    have hpool : between.pool = p.pool := hplanned.pool_eq
    obtain ⟨hrest, hforall⟩ := ih (hpool ▸ own) hlater
    rw [List.flatten_cons]
    exact ⟨hplanned.append hrest, .cons hall hforall⟩

end Planner

end Datacenter
