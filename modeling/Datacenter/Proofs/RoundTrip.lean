import Datacenter.Proofs.Recalling

/-!
# Saving and restoring a whole pool

A ledger saves a pool, the pool goes on without losing VMs, and the ledger restores it. All hosts
are evicted first, so VMs are nowhere. Then they come back one by one to where they were. VMs ask
for the same words as before, and a host has at most what it had, so only compute rates can be
short.

Main statements: `Recovering.putsBack` and `Recovering.of_evictAll`.
-/

namespace Datacenter

variable {α : Type} [Scalar α]

namespace Pool

omit [Scalar α] in
/-- The operation removes no VM. -/
def Op.KeepsVms : Op α → Prop
  | .removeVm _ => False
  | _ => True

omit [Scalar α] in
theorem Op.KeepsVms.asksFor {op : Op α} (h : op.KeepsVms) : op.AsksFor fun _ => True := by
  cases op with
  | removeVm v => exact h.elim
  | _ => trivial

omit [Scalar α] in
theorem Op.Rearranges.keepsVms {op : Op α} (h : op.Rearranges) : op.KeepsVms := by
  cases op with
  | removeVm v => exact h.elim
  | _ => trivial

variable {saved pool pool' : Pool α}

/-! ### Evictions -/

/-- After all hosts are evicted, VMs are nowhere. -/
theorem Ownership.evictAll_unplaced (own : pool.Ownership) {hosts : List HostId}
    (hhosts : ∀ h ∈ pool.hostIds, h ∈ hosts) {v : VmId} {p : Placement}
    (hp : (Ledger.evictAll pool hosts).2.placement v = some p) : p = .unplaced := by
  rw [Ledger.evictAll_placement own, Option.map_eq_some_iff] at hp
  obtain ⟨before, hbefore, hafter⟩ := hp
  obtain ⟨vm, hv, hhost, htarget⟩ := (placement_eq_some_iff _ _ _).mp hbefore
  have hwithin : p.Within before := hafter ▸ (Placement.Within.refl before).foldl_without hosts
  have hgone : ∀ {g : HostId} {host : Host α}, pool.hosts.get? g = some host → ¬p.IsAround g := by
    intro g host hg
    have hmem := hhosts g ((Table.mem_keys_iff _ _).mpr ⟨host, hg⟩)
    exact hafter ▸ Placement.not_isAround_foldl_without hmem before
  obtain ⟨source, target⟩ := p
  cases source with
  | some g =>
    obtain ⟨host, hg⟩ := own.exists_host hv (hhost.trans (hwithin.host_eq rfl))
    exact absurd (.inl rfl) (hgone hg)
  | none =>
    cases target with
    | some g =>
      obtain ⟨host, hg⟩ := own.exists_target hv (htarget.trans (hwithin.target_eq rfl))
      exact absurd (.inr rfl) (hgone hg)
    | none => rfl

/-! ### Pools on the way back -/

/-- The pool has gone on from the saved one without losing VMs, and where a VM is, it was saved. -/
structure Recovering (saved pool : Pool α) : Prop where
  steps : Steps Op.KeepsVms saved pool
  within : ∀ v p, pool.placement v = some p → p.Within ((saved.placement v).getD .unplaced)

namespace Recovering

theorem extends_pool (hr : Recovering saved pool) (own : saved.Ownership) : saved.Extends pool :=
  (hr.steps.mono fun _ hop => hop.asksFor).extends_pool own

theorem recalls (hr : Recovering saved pool) (own : saved.Ownership) (k : Stock) :
    Recalls saved pool fun d => d.stock k where
  within := hr.within
  demand v vm vm' hv hv' := by
    obtain ⟨record, hrecord, hstock⟩ := (hr.extends_pool own).vms v vm hv
    rw [hv', Option.some.injEq] at hrecord
    rw [hrecord, hstock]

/-- The words of a VM that is put back fit into its host. -/
theorem eq_cpu_of_shortage (hr : Recovering saved pool) (hs : saved.Reachable) {v : VmId}
    {vm : Vm α} {q : Placement} {g : HostId} {host : Host α} {d : Dimension}
    (hv : pool.vms.get? v = some vm) (hq : saved.placement v = some q)
    (hh : pool.hosts.get? g = some host) {former : Host α}
    (hformer : saved.hosts.get? g = some former)
    (hback : vm.host = none ∧ q.host = some g ∨ vm.migrationTarget = none ∧ q.target = some g)
    (hshort : host.shortage vm.demand = .ok (some d)) : d = .cpu := by
  have hpool := hr.steps.reachable hs
  obtain ⟨host', hh', hspec⟩ := (hr.extends_pool hs.ownership).hosts g former hformer
  rw [hh, Option.some.injEq] at hh'
  subst hh'
  have hbalanced := hpool.balanced g host hh
  have hbefore := hs.balanced g former hformer
  obtain ⟨available, ha, hfree⟩ := hbalanced.available
  rw [Host.shortage, ha] at hshort
  refine Resources.eq_cpu_of_shortage (Except.ok.inj hshort) fun k => ?_
  have hle := (hr.recalls hs.ownership k).allocated_le hs.ownership hpool.ownership
    (fun _ _ _ => Nat.zero_le _) hh hformer (hbalanced.exact_stock k) (hbefore.exact_stock k) hv hq
    hback
  have hcapacity : host.capacity = former.capacity := by
    rw [Host.capacity, Host.capacity, Host.totalMips, Host.totalMips, hspec]
  have hwithin := hbefore.within k
  have hsum := hfree k
  rw [hcapacity] at hsum
  omega

theorem putsBack (hs : saved.Reachable) :
    PutsBack saved (fun d => d = .cpu) (Recovering saved) where
  reachable hr := hr.steps.reachable hs
  hosts hr hformer := by
    obtain ⟨host, hh, -⟩ := (hr.extends_pool hs.ownership).hosts _ _ hformer
    exact ⟨host, hh⟩
  known {pool v q} hr hq := by
    obtain ⟨record, hrecord, -⟩ := (placement_eq_some_iff _ _ _).mp hq
    obtain ⟨vm, hv, -⟩ := (hr.extends_pool hs.ownership).vms v record hrecord
    have hwithin := hr.within v _ (placement_of_get? hv)
    rw [hq] at hwithin
    exact ⟨_, placement_of_get? hv, hwithin⟩
  keeps {pool pool' v p q} hr hsteps hq hwithin hplaced := by
    refine ⟨hr.steps.trans (hsteps.mono fun _ hop => hop.keepsVms), fun w p' hp' => ?_⟩
    rw [hplaced] at hp'
    split at hp'
    · rename_i hw
      cases hp'
      rw [hw, hq]
      exact hwithin
    · exact hr.within w p' hp'
  shortage {pool v vm q g host d} hr hv hq hh hback hshort := by
    obtain ⟨record, hrecord, hqhost, hqtarget⟩ := (placement_eq_some_iff _ _ _).mp hq
    have hformer : ∃ former, saved.hosts.get? g = some former := by
      rcases hback with ⟨-, hg⟩ | ⟨-, hg⟩
      · exact hs.ownership.exists_host hrecord (hqhost.trans hg)
      · exact hs.ownership.exists_target hrecord (hqtarget.trans hg)
    obtain ⟨former, hformer⟩ := hformer
    exact hr.eq_cpu_of_shortage hs hv hq hh hformer hback hshort

/-- With all hosts evicted, a pool is on its way back to any pool that it has gone on from. -/
theorem of_evictAll (own : saved.Ownership) (hsteps : Steps Op.KeepsVms saved pool)
    {hosts : List HostId} (hhosts : ∀ h ∈ pool.hostIds, h ∈ hosts) :
    Recovering saved (Ledger.evictAll pool hosts).2 where
  steps := hsteps.trans ((Ledger.evictAll_steps pool hosts).mono fun _ hop => hop.keepsVms)
  within v p hp := by
    have own' := own.of_steps (fun _ => trivial) (fun _ => trivial) hsteps
    rw [own'.evictAll_unplaced hhosts hp]
    exact ⟨.inl rfl, .inl rfl⟩

end Recovering

end Pool

namespace Ledger

open Pool

variable {saved pool : Pool α}

/-- A saved pool that has gone on without losing VMs is restored: saved VMs are where they were, and
VMs that were added are nowhere. Or a host is short of compute capacity. Nothing else is refused. -/
theorem tryRestore_roundTrip (hr : saved.Reachable) (hsteps : Steps Op.KeepsVms saved pool)
    (ledger : Ledger) {savedVms vms : List VmId} {hosts : List HostId}
    (hsaved : savedVms.Perm saved.vmIds) (hvms : vms.Perm pool.vmIds)
    (hhosts : hosts.Perm pool.hostIds) :
    ∃ r, (ledger.save saved savedVms).tryRestore pool vms hosts = .ok r
      ∧ (r.failure = none
          ∧ (∀ v p, saved.placement v = some p → r.pool.placement v = some p)
          ∧ (∀ v ∈ pool.vmIds, saved.placement v = none → r.pool.placement v = some .unplaced)
        ∨ ∃ v h, r.failure = some (.refused v h (.notEnough .cpu))) := by
  have own := hr.ownership
  have own' := own.of_steps (fun _ => trivial) (fun _ => trivial) hsteps
  have hgrown := (hsteps.mono fun _ hop => hop.asksFor).extends_pool own
  have hmem : ∀ v vm, pool.vms.get? v = some vm → v ∈ vms := fun v vm hv =>
    hvms.mem_iff.mpr ((Table.mem_keys_iff _ _).mpr ⟨vm, hv⟩)
  have hevicted := Recovering.of_evictAll own hsteps fun h hh => hhosts.mem_iff.mpr hh
  have hentries := Snapshot.mem_capture_iff own savedVms
  rw [save, tryRestore_eq own' _ fun v p hp _ => ?_]
  · obtain ⟨⟨last, failure⟩, hrestore, ⟨rfl, hlast⟩ | ⟨v, h, d, rfl, rfl⟩⟩ :=
      (Recovering.putsBack hr).restoreEntries own hevicted (.ofList vms) fun entry he =>
        ((hentries entry).mp he).2
    · obtain ⟨hplaced, hothers⟩ := restoreEntries_placement
        (own'.rearranged (evictAll_steps pool hosts))
        (Snapshot.agree_capture own _) hrestore
      refine ⟨_, hrestore, .inl ⟨rfl, fun v p hp => ?_, fun v hv hnew => ?_⟩⟩
      · obtain ⟨vm, hv, -⟩ := (placement_eq_some_iff _ _ _).mp hp
        obtain ⟨vm', hv', -⟩ := hgrown.vms v vm hv
        have hentry : ⟨v, p.host, p.target⟩ ∈ (Snapshot.capture saved savedVms).entries :=
          (hentries _).mpr ⟨hsaved.mem_iff.mpr ((Table.mem_keys_iff _ _).mpr ⟨vm, hv⟩), hp⟩
        refine hplaced _ hentry ?_
        rw [Std.TreeSet.contains_ofList, List.contains_iff_mem]
        exact hmem v vm' hv'
      · obtain ⟨vm, hv⟩ := (Table.mem_keys_iff _ _).mp hv
        -- No entry is about the VM, so it is where the evictions left it.
        rw [hothers v fun entry he _ heq => ?_]
        · cases hp : (evictAll pool hosts).2.placement v with
          | some p =>
            rw [own'.evictAll_unplaced (fun h hh => hhosts.mem_iff.mpr hh) hp]
          | none =>
            rw [evictAll_placement own', placement_of_get? hv] at hp
            cases hp
        · have hbefore := ((hentries entry).mp he).2
          rw [heq, hnew] at hbefore
          cases hbefore
    · exact ⟨_, hrestore, .inr ⟨v, h, rfl⟩⟩
  · obtain ⟨vm, hv, -⟩ := (placement_eq_some_iff _ _ _).mp hp
    exact hmem v vm hv

/-- One VM runs on the first host, one moves from there to the second one, and one waits. -/
def departingRun : List (Op Float) :=
  let host : HostSpec Float := ⟨"host", 4, 1000, 8192, 1000, 100000, .linear 200 0.5⟩
  let vm : VmSpec Float := ⟨"tenant", 2, 500, 4096, 100, 1000⟩
  [.addHost host, .addHost host, .addVm vm, .addVm vm, .addVm vm, .allocate 0 0, .allocate 1 0,
    .startMigration 1 1]

/-- The migration lands, the VM that waits is placed, and the first one is resized and moves to a
new host beside a new VM. Then the second host is evicted. -/
def detour : List (Op Float) :=
  let host : HostSpec Float := ⟨"host", 4, 1000, 8192, 1000, 100000, .linear 200 0.5⟩
  [.finishMigration 1, .allocate 2 1, .addHost host, .addVm ⟨"tenant", 1, 100, 4096, 100, 1000⟩,
    .allocate 3 2, .updateVmMips 0 700, .startMigration 0 2, .evictHost 1]

theorem detour_restored : ∃ saved pool r, Pool.empty.run departingRun = .ok saved
    ∧ saved.run detour = .ok pool ∧ pool.placement 0 = some ⟨some 0, some 2⟩
    ∧ (empty.save saved saved.vmIds).tryRestore pool pool.vmIds pool.hostIds = .ok r
    ∧ r.failure = none ∧ r.pool.placement 0 = some ⟨some 0, none⟩
    ∧ r.pool.placement 1 = some ⟨some 0, some 1⟩ ∧ r.pool.placement 2 = some .unplaced
    ∧ r.pool.placement 3 = some .unplaced := by
  have hrun : ((Pool.empty.run departingRun).toOption.any fun saved =>
      (saved.placement 0 == some ⟨some 0, none⟩ && saved.placement 1 == some ⟨some 0, some 1⟩
        && saved.placement 2 == some .unplaced && saved.placement 3 == none)
      && (saved.run detour).toOption.any fun pool =>
        (pool.placement 0 == some ⟨some 0, some 2⟩ && pool.vmIds.contains 3)
        && ((empty.save saved saved.vmIds).tryRestore pool pool.vmIds
          pool.hostIds).toOption.any (·.failure == none)) = true := by
    decide +kernel
  obtain ⟨saved, hsaved, htest⟩ := Checked.eq_ok_of_any hrun
  rw [Bool.and_eq_true] at htest
  obtain ⟨hplaces, htest⟩ := htest
  obtain ⟨pool, hpool, htest⟩ := Checked.eq_ok_of_any htest
  simp only [Bool.and_eq_true, beq_iff_eq, List.contains_iff_mem] at hplaces htest
  obtain ⟨⟨⟨h0, h1⟩, h2⟩, h3⟩ := hplaces
  obtain ⟨⟨hmoving, hknown⟩, hany⟩ := htest
  obtain ⟨r, hr, hdone⟩ := Checked.eq_ok_of_any hany
  have hops : ∀ op ∈ detour, op.KeepsVms := by
    simp only [detour, List.forall_mem_cons, Op.KeepsVms]
    exact ⟨trivial, trivial, trivial, trivial, trivial, trivial, trivial, trivial,
      fun _ h => nomatch h⟩
  have hsteps : Steps Op.KeepsVms saved pool := (Steps.refl saved).run hops hpool
  obtain ⟨r', hr', hanswer⟩ := tryRestore_roundTrip (reachable_of_run hsaved) hsteps empty
    (.refl saved.vmIds) (.refl pool.vmIds) (.refl pool.hostIds)
  rw [hr, Except.ok.injEq] at hr'
  subst hr'
  rcases hanswer with ⟨hnone, hback, hnew⟩ | ⟨v, h, hrefused⟩
  · exact ⟨saved, pool, r, hsaved, hpool, hmoving, hr, hnone, hback 0 _ h0, hback 1 _ h1,
      hback 2 _ h2, hnew 3 hknown h3⟩
  · rw [hrefused] at hdone
    cases hdone

end Ledger

end Datacenter
