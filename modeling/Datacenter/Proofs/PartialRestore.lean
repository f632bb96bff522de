import Datacenter.Proofs.Restoring

/-!
# Restoring some VMs

Evicting hosts one after the other takes VMs off them and ends migrations to them, in whatever order
the hosts come. VMs that are not to be restored then migrate again, to the only host that they can
have migrated to. So what is not to be restored loses its place only if an evicted host ran it, and
what is to be restored ends up where its entry says, or where the evictions left it if it has none.

Main statements: `resume_evictAll_placement`, `Steps.sameVm` and `partial_restore`.
-/

namespace Datacenter

/-! ### Placements around evictions -/

namespace Placement

variable {p : Placement} {t : HostId}

/-- The placement once the VM, if it runs somewhere and moves nowhere, moves to the host. -/
def movingTo (p : Placement) (t : HostId) : Placement :=
  if p.host.isSome && p.target.isNone then ⟨p.host, some t⟩ else p

theorem movingTo_movingTo (p : Placement) (t : HostId) :
    (p.movingTo t).movingTo t = p.movingTo t := by
  rcases p with ⟨_ | s, _ | g⟩ <;> rfl

/-- A migration that was ended goes on as it was. -/
theorem staying_movingTo (hh : p.host.isSome = true) (ht : p.target = some t) :
    p.staying.movingTo t = p := by
  obtain ⟨_ | s, _ | g⟩ := p
  · cases hh
  · cases hh
  · cases ht
  · cases ht
    rfl

end Placement

namespace Ledger

variable {α : Type} [Scalar α] {pool pool' : Pool α}

open Pool

/-! ### Migrations that are resumed -/

/-- A VM that moved to an evicted host comes up, unless it was taken off its own host before. -/
theorem mem_evictAll_of_target (own : pool.Ownership) {hosts : List HostId} {w : VmId}
    {p : Placement} {t : HostId} (hp : pool.placement w = some p)
    (hstays : ∀ h ∈ hosts, p.host ≠ some h) (ht : p.target = some t) (hmem : t ∈ hosts) :
    (w, t) ∈ (evictAll pool hosts).1 := by
  induction hosts generalizing pool p with
  | nil => cases hmem
  | cons h hosts ih =>
    rw [evictAll, List.mem_append]
    by_cases hth : t = h
    · subst hth
      obtain ⟨vm, hv, -, hm⟩ := (placement_eq_some_iff _ _ _).mp hp
      obtain ⟨host, hh⟩ := own.exists_target hv (hm.trans ht)
      rw [hh]
      exact .inl (List.mem_map.mpr ⟨w, (own.mem_incoming_iff hh w).mpr ⟨p, hp, ht⟩, rfl⟩)
    · have hkeep : p.without h = p := by
        refine Placement.without_of_not_isAround ?_
        rintro (hr | hi)
        · exact hstays h List.mem_cons_self hr
        · rw [ht, Option.some.injEq] at hi
          exact hth hi
      refine .inr (ih (own.rearranged (evictHost_steps pool h)) (p := p) ?_
        (fun g hg => hstays g (List.mem_cons_of_mem _ hg)) ht
        ((List.mem_cons.mp hmem).resolve_left hth))
      rw [evictHost_placement own, hp, Option.map_some, hkeep]

theorem resume_cons_placement {toRestore : Std.TreeSet VmId} {v : VmId} {t : HostId}
    {rest : List (VmId × HostId)}
    (h : resume toRestore pool ((v, t) :: rest) = .ok ⟨pool', none⟩) :
    ∃ between, resume toRestore between rest = .ok ⟨pool', none⟩
      ∧ ∀ w, between.placement w
        = if w = v ∧ toRestore.contains w = false then (pool.placement w).map (·.movingTo t)
          else pool.placement w := by
  rw [resume] at h
  split at h
  · rename_i hcontains
    refine ⟨pool, h, fun w => (if_neg ?_).symm⟩
    rintro ⟨rfl, hnot⟩
    rw [hcontains] at hnot
    cases hnot
  · rename_i hcontains
    rw [Bool.not_eq_true] at hcontains
    split at h
    · cases h
    · rename_i vm hv
      split at h
      · obtain ⟨r, hstart, h⟩ := (Checked.bind_eq_ok_iff _ _ _).mp h
        obtain ⟨between, rfl, hrest⟩ := Restoration.done_of_andThen h
        obtain ⟨s, hs, -, hstarted⟩ :=
          startMigration_placement (Restoration.done_of_ofOutcome hstart)
        refine ⟨between, hrest, fun w => ?_⟩
        rw [hstarted]
        by_cases hw : w = v
        · subst hw
          rw [if_pos rfl, if_pos ⟨rfl, hcontains⟩, hs]
          rfl
        · rw [if_neg hw, if_neg fun hboth => hw hboth.1]
      · rename_i hstays
        refine ⟨pool, h, fun w => ?_⟩
        split
        · rename_i hw
          have hsame : Placement.movingTo ⟨vm.host, vm.migrationTarget⟩ t
              = ⟨vm.host, vm.migrationTarget⟩ :=
            if_neg (by simpa [Vm.isMigrating] using hstays)
          rw [hw.1, placement_of_get? hv, Option.map_some, hsame]
        · rfl

/-- A VM that is not to be restored and comes up with one host only moves there again. -/
theorem resume_placement {toRestore : Std.TreeSet VmId} {migratingIn : List (VmId × HostId)}
    (h : resume toRestore pool migratingIn = .ok ⟨pool', none⟩) {w : VmId} {t : HostId}
    (hone : ∀ e ∈ migratingIn, e.1 = w → e.2 = t) :
    pool'.placement w
      = if toRestore.contains w = false ∧ (w, t) ∈ migratingIn
        then (pool.placement w).map (·.movingTo t) else pool.placement w := by
  induction migratingIn generalizing pool with
  | nil =>
    obtain ⟨rfl, -⟩ := (Restoration.mk.injEq ..).mp (Except.ok.inj h)
    simp
  | cons e rest ih =>
    obtain ⟨v, g⟩ := e
    obtain ⟨between, hrest, hfirst⟩ := resume_cons_placement h
    rw [ih hrest fun e he => hone e (List.mem_cons_of_mem _ he), hfirst]
    by_cases hw : w = v
    · -- The host that comes with the VM is the expected one, here and later.
      have hg : g = t := hone (v, g) List.mem_cons_self hw.symm
      subst hw hg
      cases toRestore.contains w with
      | true => simp
      | false =>
        by_cases hagain : (w, g) ∈ rest
        · simp [hagain, Option.map_map, Function.comp_def, Placement.movingTo_movingTo]
        · simp [hagain]
    · simp [hw]

/-- After evictions and resumed migrations, a VM that an evicted host ran is unplaced. Another one
has lost a migration to an evicted host only if it is to be restored. -/
theorem resume_evictAll_placement (own : pool.Ownership) {toRestore : Std.TreeSet VmId}
    {hosts : List HostId}
    (h : resume toRestore (evictAll pool hosts).2 (evictAll pool hosts).1 = .ok ⟨pool', none⟩)
    {w : VmId} {p : Placement} (hp : pool.placement w = some p) :
    pool'.placement w = some (
      if ∃ g ∈ hosts, p.host = some g then .unplaced
      else if toRestore.contains w = true ∧ ∃ g ∈ hosts, p.target = some g then p.staying
      else p) := by
  have hup : ∀ e ∈ (evictAll pool hosts).1, e.1 = w → e.2 ∈ hosts ∧ p.target = some e.2 := by
    rintro e he rfl
    obtain ⟨hmem, q, hq, ht⟩ := mem_evictAll own he
    rw [hp, Option.some.injEq] at hq
    exact ⟨hmem, hq ▸ ht⟩
  have hevicted := evictAll_placement own hosts w
  rw [hp, Option.map_some, Placement.foldl_without] at hevicted
  rw [resume_placement (t := p.target.getD 0) h fun e he hw => by
    rw [(hup e he hw).2, Option.getD_some], hevicted]
  by_cases hruns : ∃ g ∈ hosts, p.host = some g
  · rw [if_pos hruns, if_pos hruns]
    split
    · rfl
    · rfl
  · rw [if_neg hruns, if_neg hruns]
    by_cases hmoves : ∃ g ∈ hosts, p.target = some g
    · obtain ⟨t, hmem, ht⟩ := id hmoves
      have hagain : (w, t) ∈ (evictAll pool hosts).1 :=
        mem_evictAll_of_target own hp (fun g hg hh => hruns ⟨g, hg, hh⟩) ht hmem
      rw [if_pos hmoves, ht, Option.getD_some]
      cases toRestore.contains w with
      | true => rw [if_neg (by simp), if_pos ⟨rfl, t, hmem, rfl⟩]
      | false =>
        obtain ⟨vm, hv, hhost, htarget⟩ := (placement_eq_some_iff _ _ _).mp hp
        obtain ⟨s, hs, -⟩ := own.moving w vm t hv (htarget.trans ht)
        have hsome : p.host.isSome = true := by rw [← hhost, hs, Option.isSome_some]
        rw [if_pos ⟨rfl, hagain⟩, if_neg (by simp), Option.map_some,
          Placement.staying_movingTo hsome ht]
    · -- The VM does not come up.
      rw [if_neg fun hagain => hmoves ⟨_, hup _ hagain.2 rfl⟩, if_neg hmoves,
        if_neg fun hboth => hmoves hboth.2]

end Ledger

/-! ### Records that keep all but their place -/

namespace Pool

variable {α : Type} [Scalar α] {pool pool' : Pool α} {w : VmId} {P : VmId → Prop}

omit [Scalar α] in
/-- The VM has the same record in both pools, apart from its place. -/
def SameVm (w : VmId) (pool pool' : Pool α) : Prop :=
  (pool'.vms.get? w).map Vm.unplaced = (pool.vms.get? w).map Vm.unplaced

omit [Scalar α] in
theorem SameVm.withVm {between : Pool α} {v : VmId} {vm vm' : Vm α}
    (hv : pool.vms.get? v = some vm) (hrest : between.vms = pool.vms)
    (hsame : w = v → vm'.unplaced = vm.unplaced) : SameVm w pool (between.withVm v vm') := by
  rw [SameVm, vms_withVm, Table.get?_insert, hrest]
  split
  · rename_i hw
    rw [hw, hv, Option.map_some, Option.map_some, hsame hw]
  · rfl

theorem Change.sameVm {op : Op α} (hop : op.Restores P) (hw : ¬P w) (h : Change op pool pool') :
    SameVm w pool pool' := by
  cases h with
  | addHost h => exact hop.elim
  | addVm h => exact hop.elim
  | removeVm h => exact hop.elim
  | updateVmMips h => exact hop.elim
  | finishMigration h => exact hop.elim
  | allocate h =>
    obtain ⟨vm, host, host', hv, -, -, -, rfl⟩ := (allocate_eq_done_iff _ _ _ _).mp h
    exact SameVm.withVm hv rfl fun heq => absurd (heq ▸ hop) hw
  | release h =>
    obtain ⟨vm, hv, -, rfl⟩ := release_eq_some h
    exact SameVm.withVm hv (by simp) fun _ => rfl
  | startMigration h =>
    obtain ⟨vm, s, target, target', hv, -, -, -, -, -, rfl⟩ :=
      (startMigration_eq_done_iff _ _ _ _).mp h
    exact SameVm.withVm hv rfl fun _ => rfl
  | cancelMigration h =>
    obtain ⟨vm, t, hv, -, rfl⟩ := (cancelMigration_eq_ok_iff _ _ _).mp h
    exact SameVm.withVm hv (by simp) fun _ => rfl

/-- A restoration that places other VMs only leaves the VM's record as it is, apart from its
place. -/
theorem Steps.sameVm (h : Steps (Op.Restores P) pool pool') (hw : ¬P w) :
    SameVm w pool pool' :=
  h.invariant (fun _ => trivial) (fun _ => trivial)
    (fun _ _ _ hop hs hc => (hc.sameVm hop hw).trans hs) rfl

omit [Scalar α] in
/-- All of the record is known once the place is. -/
theorem SameVm.get? (hs : SameVm w pool pool') {vm vm' : Vm α} (hv : pool.vms.get? w = some vm)
    (hplace : pool'.placement w = some ⟨vm'.host, vm'.migrationTarget⟩)
    (hrest : vm'.unplaced = vm.unplaced) : pool'.vms.get? w = some vm' := by
  obtain ⟨last, hlast, hh, ht⟩ := (placement_eq_some_iff _ _ _).mp hplace
  rw [SameVm, hv, hlast, Option.map_some, Option.map_some, Option.some.injEq, ← hrest] at hs
  obtain ⟨spec, id, host, target, waiting⟩ := last
  obtain ⟨spec', id', host', target', waiting'⟩ := vm'
  cases hh
  cases ht
  cases hs
  exact hlast

end Pool

/-! ### Pools after a restoration -/

namespace Ledger

open Pool

variable {α : Type} [Scalar α] {saved pool pool' : Pool α} {savedVms vms : List VmId}
  {hosts : List HostId}

section

variable (hs : saved.Ownership) (own : pool.Ownership)
  (h : tryRestore ⟨some (.capture saved savedVms)⟩ pool vms hosts = .ok ⟨pool', none⟩)

include hs own h

/-- VMs that have an entry and are to be restored are where the entry says. The others are where the
evictions and the migrations after them left them. -/
theorem tryRestore_parts :
    ∃ between, resume (.ofList vms) (evictAll pool hosts).2 (evictAll pool hosts).1
        = .ok ⟨between, none⟩
      ∧ (∀ entry ∈ (Snapshot.capture saved savedVms).entries, entry.vm ∈ vms →
        pool'.placement entry.vm = some entry.placement)
      ∧ ∀ w, (∀ entry ∈ (Snapshot.capture saved savedVms).entries, entry.vm ∈ vms →
        entry.vm ≠ w) → pool'.placement w = between.placement w := by
  rw [tryRestore] at h
  obtain ⟨r, hresume, h⟩ := (Checked.bind_eq_ok_iff _ _ _).mp h
  obtain ⟨between, rfl, hrestore⟩ := Restoration.done_of_andThen h
  obtain ⟨hentries, hothers⟩ := restoreEntries_placement
    (own.rearranged ((evictAll_steps pool hosts).trans (resume_steps hresume)))
    (Snapshot.agree_capture hs _) hrestore
  simp only [Std.TreeSet.contains_ofList, List.contains_iff_mem] at hentries hothers
  exact ⟨between, hresume, hentries, hothers⟩

/-- The record of a VM that is not to be restored, or has no entry. -/
theorem tryRestore_unrestored {v : VmId} {vm : Vm α} (hv : pool.vms.get? v = some vm)
    (hnot : ∀ entry ∈ (Snapshot.capture saved savedVms).entries, entry.vm ∈ vms → entry.vm ≠ v) :
    pool'.vms.get? v = some (
      if ∃ g ∈ hosts, vm.host = some g then vm.unplaced
      else if v ∈ vms ∧ ∃ g ∈ hosts, vm.migrationTarget = some g then vm.staying
      else vm) := by
  have hsame : SameVm v pool pool' := by
    refine (tryRestore_restores h).sameVm ?_
    rintro ⟨hmem, entry, he, rfl⟩
    exact hnot entry he hmem rfl
  obtain ⟨between, hresume, -, hothers⟩ := tryRestore_parts hs own h
  have hplace := hothers v hnot
  rw [resume_evictAll_placement own hresume (placement_of_get? hv)] at hplace
  simp only [Std.TreeSet.contains_ofList, List.contains_iff_mem] at hplace
  split
  · rename_i hruns
    rw [if_pos hruns] at hplace
    exact hsame.get? hv hplace rfl
  · rename_i hruns
    rw [if_neg hruns] at hplace
    split
    · rename_i hmoves
      rw [if_pos hmoves] at hplace
      exact hsame.get? hv hplace rfl
    · rename_i hmoves
      rw [if_neg hmoves] at hplace
      exact hsame.get? hv hplace rfl

end

/-- A restoration that does not stop puts VMs that have an entry and are to be restored where the
entry says. Other VMs are taken off evicted hosts. The ones that are not to be restored still move
to evicted hosts, and the ones without an entry stay where they are instead. Nothing else happens to
them. -/
theorem partial_restore (hr : saved.Reachable) (hsteps : Steps (fun _ => True) saved pool)
    (ledger : Ledger)
    (h : (ledger.save saved savedVms).tryRestore pool vms hosts = .ok ⟨pool', none⟩) :
    (∀ v ∈ vms, ∀ entry, (Snapshot.capture saved savedVms).entryOf v = some entry →
      saved.placement v = some entry.placement ∧ pool'.placement v = some entry.placement)
    ∧ (∀ v ∉ vms, ∀ vm, pool.vms.get? v = some vm →
      pool'.vms.get? v = some (if ∃ g ∈ hosts, vm.host = some g then vm.unplaced else vm))
    ∧ ∀ v ∈ vms, (Snapshot.capture saved savedVms).entryOf v = none →
      ∀ vm, pool.vms.get? v = some vm →
        pool'.vms.get? v = some (
          if ∃ g ∈ hosts, vm.host = some g then vm.unplaced
          else if ∃ g ∈ hosts, vm.migrationTarget = some g then vm.staying
          else vm) := by
  have hs := hr.ownership
  have own := (hsteps.reachable hr).ownership
  refine ⟨fun v hmem entry hentry => ?_, fun v hmem vm hv => ?_, fun v hmem hnone vm hv => ?_⟩
  · rw [Snapshot.entryOf] at hentry
    have he := List.mem_of_find?_eq_some hentry
    obtain rfl : entry.vm = v := by simpa using List.find?_some hentry
    obtain ⟨between, -, hentries, -⟩ := tryRestore_parts hs own h
    exact ⟨((Snapshot.mem_capture_iff hs _ _).mp he).2, hentries entry he hmem⟩
  · have hvm := tryRestore_unrestored hs own h hv fun entry _ hin heq => hmem (heq ▸ hin)
    rwa [if_neg (c := _ ∧ _) fun hboth => hmem hboth.1] at hvm
  · have hvm := tryRestore_unrestored hs own h hv fun entry he _ heq =>
      List.find?_eq_none.mp hnone entry he (beq_iff_eq.mpr heq)
    simpa only [hmem, true_and] using hvm

/-- One VM moves from the first host to the second one, one runs on the third one, and two wait. -/
def spreadRun : List (Op Float) :=
  let host : HostSpec Float := ⟨"host", 4, 1000, 8192, 1000, 100000, .linear 200 0.5⟩
  let vm : VmSpec Float := ⟨"tenant", 1, 500, 1024, 100, 1000⟩
  [.addHost host, .addHost host, .addHost host, .addVm vm, .addVm vm, .addVm vm, .addVm vm,
    .allocate 0 0, .startMigration 0 1, .allocate 1 2]

/-- The migration lands, so that the second host runs two VMs, and two more move to it. -/
def gatheringRun : List (Op Float) :=
  [.finishMigration 0, .allocate 2 1, .allocate 3 2, .startMigration 1 1, .startMigration 3 1]

theorem gatheringRun_restored : ∃ saved pool pool' : Pool Float,
    Pool.empty.run spreadRun = .ok saved ∧ saved.run gatheringRun = .ok pool
    ∧ (empty.save saved [0, 1, 0]).tryRestore pool [0, 3, 0, 9] [1, 7, 1] = .ok ⟨pool', none⟩
    ∧ pool'.placement 0 = some ⟨some 0, some 1⟩ ∧ pool'.placement 1 = some ⟨some 2, some 1⟩
    ∧ pool'.placement 2 = some .unplaced ∧ pool'.placement 3 = some ⟨some 2, none⟩ := by
  have hrun : ((Pool.empty.run spreadRun).toOption.any fun saved =>
      ((Snapshot.capture saved [0, 1, 0]).entryOf 0 == some ⟨0, some 0, some 1⟩
        && (Snapshot.capture saved [0, 1, 0]).entryOf 3 == none)
      && (saved.run gatheringRun).toOption.any fun pool =>
        (pool.placement 1 == some ⟨some 2, some 1⟩ && pool.placement 2 == some ⟨some 1, none⟩
          && pool.placement 3 == some ⟨some 2, some 1⟩)
        && ((empty.save saved [0, 1, 0]).tryRestore pool [0, 3, 0, 9]
          [1, 7, 1]).toOption.any (·.failure == none)) = true := by
    decide +kernel
  obtain ⟨saved, hsaved, htest⟩ := Checked.eq_ok_of_any hrun
  rw [Bool.and_eq_true] at htest
  obtain ⟨hentries, htest⟩ := htest
  obtain ⟨pool, hpool, htest⟩ := Checked.eq_ok_of_any htest
  simp only [Bool.and_eq_true, beq_iff_eq] at hentries htest
  obtain ⟨h0, h3⟩ := hentries
  obtain ⟨⟨⟨p1, p2⟩, p3⟩, hany⟩ := htest
  obtain ⟨⟨pool', failure⟩, hdone, hnone⟩ := Checked.eq_ok_of_any hany
  obtain rfl : failure = none := eq_of_beq hnone
  obtain ⟨hback, hothers, hwithout⟩ := partial_restore (reachable_of_run hsaved)
    ((Steps.refl saved).run (fun _ _ => trivial) hpool) empty hdone
  obtain ⟨vm1, v1, hh1, ht1⟩ := (placement_eq_some_iff _ _ _).mp p1
  obtain ⟨vm2, v2, hh2, -⟩ := (placement_eq_some_iff _ _ _).mp p2
  obtain ⟨vm3, v3, hh3, ht3⟩ := (placement_eq_some_iff _ _ _).mp p3
  have w1 := hothers 1 (by decide) vm1 v1
  have w2 := hothers 2 (by decide) vm2 v2
  have w3 := hwithout 3 (by decide) h3 vm3 v3
  rw [hh1, if_neg (by decide)] at w1
  rw [hh2, if_pos (by decide)] at w2
  rw [hh3, ht3, if_neg (by decide), if_pos (by decide)] at w3
  refine ⟨saved, pool, pool', hsaved, hpool, hdone, (hback 0 (by decide) _ h0).2, ?_, ?_, ?_⟩
  · rw [placement_of_get? w1, hh1, ht1]
  · exact placement_of_get? w2
  · rw [placement_of_get? w3, Vm.staying, hh3]

end Ledger

end Datacenter
