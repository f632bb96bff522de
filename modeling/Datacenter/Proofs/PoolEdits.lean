import Datacenter.Proofs.Edits

/-!
# Pools that are changed in place

Each operation writes to hosts and to the record of its VM, in this order, and looks hosts up on the
way. Nothing can stop it after its first write: by then the tests have been passed, the hosts that
the record names exist, and they have what the record says.

Main statements: `operations_follow_records`.
-/

namespace Datacenter.Pool

variable {α ε β : Type}

/-! ### Writes of pools -/

/-- Edits a host where it stands, or does something else if there is none. -/
def editing (h : HostId) (edit : Edit (Host α) ε β) (otherwise : Edit (Pool α) ε β) :
    Edit (Pool α) ε β where
  run draft :=
    match draft.state.hosts.get? h with
    | none => otherwise.run draft
    | some host =>
      let (answer, after) := edit.run ⟨host, draft.lapses⟩
      (answer, ⟨draft.state.withHost h after.state, after.lapses⟩)

/-- A record names a host that is not there. -/
def lacking (h : HostId) (reason : ε) : Edit (Pool α) ε β := do
  Edit.note (.missing h)
  Edit.answer (.refused reason)

def droppingReservation (v : VmId) (vm : Vm α) [Scalar α] : Edit (Pool α) Unit Unit :=
  match vm.migrationTarget with
  | none => pure ()
  | some t => editing t (Edit.write (·.cancel v)) (lacking t ())

variable [Scalar α]

def allocating (v : VmId) (h : HostId) : Edit (Pool α) Refusal Unit := do
  let pool ← Edit.read
  let vm ← Edit.ofOption .vmNotFound (pool.vms.get? v)
  if vm.host.isSome then Edit.answer (.refused .alreadyAllocated)
  else do
    editing h (Host.allocating v vm.demand) (Edit.answer (.refused .hostNotFound))
    Edit.write (·.withVm v { vm with host := some h, beingInstantiated := false })

/-- A refusal stands for no former host. -/
def releasing (v : VmId) : Edit (Pool α) Unit HostId := do
  let pool ← Edit.read
  let vm ← Edit.ofOption () (pool.vms.get? v)
  let h ← Edit.ofOption () vm.host
  droppingReservation v vm
  editing h (Edit.write (·.release v)) (lacking h ())
  Edit.write (·.withVm v vm.unplaced)
  return h

def startingMigration (v : VmId) (t : HostId) : Edit (Pool α) Refusal Unit := do
  let pool ← Edit.read
  let vm ← Edit.ofOption .vmNotFound (pool.vms.get? v)
  let s ← Edit.ofOption .notAllocated vm.host
  if vm.isMigrating then Edit.answer (.refused .vmMigrating)
  else if s = t then Edit.answer (.refused .sameHost)
  else do
    editing t (Host.reserving v vm.demand) (Edit.answer (.refused .hostNotFound))
    Edit.write (·.withVm v (vm.movingTo t))

def finishingMigration (v : VmId) : Edit (Pool α) Refusal HostId := do
  let pool ← Edit.read
  let vm ← Edit.ofOption .vmNotFound (pool.vms.get? v)
  let s ← Edit.ofOption .notAllocated vm.host
  let t ← Edit.ofOption .notAllocated vm.migrationTarget
  editing t (Host.landing v) (lacking t .hostNotFound)
  editing s (Edit.write (·.release v)) (Edit.note (.missing s))
  Edit.write (·.withVm v (vm.runningOn t))
  return s

def cancellingMigration (v : VmId) : Edit (Pool α) Refusal Unit := do
  let pool ← Edit.read
  let vm ← Edit.ofOption .vmNotFound (pool.vms.get? v)
  let t ← Edit.ofOption .notAllocated vm.migrationTarget
  editing t (Edit.write (·.cancel v)) (Edit.note (.missing t))
  Edit.write (·.withVm v vm.staying)

/-- The host gives a placed VM what it asks for at the new rate. -/
def resizingOnHost (v : VmId) (vm : Vm α) : Edit (Pool α) Refusal Unit :=
  match vm.host with
  | none => pure ()
  | some h => editing h (Host.resizing v vm.demand) (lacking h .hostNotFound)

def updatingVmMips (v : VmId) (mips : α) : Edit (Pool α) Refusal Unit := do
  let pool ← Edit.read
  let vm ← Edit.ofOption .vmNotFound (pool.vms.get? v)
  if vm.isMigrating then Edit.answer (.refused .vmMigrating)
  else do
    resizingOnHost v { vm with mips }
    Edit.write (·.withVm v { vm with mips })

/-! ### What they come to -/

variable {pool : Pool α} {v : VmId} {vm : Vm α} {h : HostId} {host : Host α}

omit [Scalar α] in
/-- A host is edited, and then a record is written, which cannot fail. -/
theorem editing_performs (hh : pool.hosts.get? h = some host) {edit : Edit (Host α) ε Unit}
    {x : Outcome ε (Host α)} (he : edit.Performs host (Prod.mk () <$> x))
    (otherwise : Edit (Pool α) ε Unit) (f : Pool α → Pool α) :
    (do editing h edit otherwise; Edit.write f).Performs pool
      (Prod.mk () <$> do let host ← x; return f (pool.withHost h host)) := by
  cases x with
  | done host' =>
    have hrun : edit.run ⟨host, []⟩ = (.done (), ⟨host', []⟩) := he
    simp [Edit.Performs, editing, hh, hrun]
  | refused reason =>
    have hrun : edit.run ⟨host, []⟩ = (.refused reason, ⟨host, []⟩) := he
    simp [Edit.Performs, editing, hh, hrun, withHost_of_get? hh]
  | fault e => exact he.elim

namespace Reachable

variable (hr : pool.Reachable)

include hr

theorem allocating_performs (v : VmId) (h : HostId) :
    (allocating v h).Performs pool (Prod.mk () <$> pool.allocate v h) := by
  rw [allocating, Edit.performs_read_bind, allocate]
  cases hv : pool.vms.get? v with
  | none => simp
  | some vm =>
    rw [Edit.performs_some_bind]
    cases hp : vm.host with
    | some g => simp [hp]
    | none =>
      have hm := hr.ownership.migrationTarget_eq_none hv hp
      cases hh : pool.hosts.get? h with
      | none => simp [Edit.Performs, editing, hh, hp]
      | some host =>
        have he := Host.allocating_performs (hr.balanced h host hh)
          (hr.ownership.resident_eq_none hv hh (by simp [hp]))
          (hr.ownership.incoming_eq_none hv hh (by simp [hm])) vm.demand
        simpa [hp] using editing_performs hh he (Edit.answer (.refused .hostNotFound))
          (·.withVm v { vm with host := some h, beingInstantiated := false })

theorem startingMigration_performs (v : VmId) (t : HostId) :
    (startingMigration v t).Performs pool (Prod.mk () <$> pool.startMigration v t) := by
  rw [startingMigration, Edit.performs_read_bind, startMigration]
  cases hv : pool.vms.get? v with
  | none => simp
  | some vm =>
    rw [Edit.performs_some_bind]
    cases hs : vm.host with
    | none => simp [hs]
    | some s =>
      rw [Edit.performs_some_bind]
      cases hm : vm.migrationTarget with
      | some g => simp [hs, Vm.isMigrating, hm]
      | none =>
        by_cases hst : s = t
        · simp [hs, Vm.isMigrating, hm, hst]
        · cases ht : pool.hosts.get? t with
          | none => simp [Edit.Performs, editing, hs, Vm.isMigrating, hm, hst, ht]
          | some target =>
            have he := Host.reserving_performs (hr.balanced t target ht)
              (hr.ownership.resident_eq_none hv ht (by simpa [hs] using hst))
              (hr.ownership.incoming_eq_none hv ht (by simp [hm])) vm.demand
            simpa [hs, Vm.isMigrating, hm, hst] using
              editing_performs ht he (Edit.answer (.refused .hostNotFound))
                (·.withVm v (vm.movingTo t))

theorem cancellingMigration_performs (v : VmId) :
    (cancellingMigration v).Performs pool
      (Prod.mk () <$> Outcome.ofExcept (pool.cancelMigration v)) := by
  rw [cancellingMigration, Edit.performs_read_bind, cancelMigration]
  cases hv : pool.vms.get? v with
  | none => simp [Outcome.ofExcept]
  | some vm =>
    rw [Edit.performs_some_bind]
    cases hm : vm.migrationTarget with
    | none => simp [Outcome.ofExcept, hm]
    | some t =>
      obtain ⟨target, ht⟩ := hr.ownership.exists_target hv hm
      simp [Edit.Performs, Outcome.ofExcept, editing, hm, ht, updateHost_of_get? ht]

theorem updatingVmMips_performs (v : VmId) (mips : α) :
    (updatingVmMips v mips).Performs pool (Prod.mk () <$> pool.updateVmMips v mips) := by
  rw [updatingVmMips, Edit.performs_read_bind, updateVmMips]
  cases hv : pool.vms.get? v with
  | none => simp
  | some vm =>
    rw [Edit.performs_some_bind]
    cases hm : vm.migrationTarget with
    | some t => simp [Vm.isMigrating, hm]
    | none =>
      cases hp : vm.host with
      | none => simp [Edit.Performs, Vm.isMigrating, hm, hp, resizingOnHost]
      | some h =>
        obtain ⟨host, hh⟩ := hr.ownership.exists_host hv hp
        have he := Host.resizing_performs (hr.balanced h host hh)
          (hr.ownership.get?_resident hv hh hp) { vm with mips }.demand
        simpa [Vm.isMigrating, hm, hp, hh, resizingOnHost] using
          editing_performs hh he (lacking h .hostNotFound) (·.withVm v { vm with mips })

theorem releasing_performs (v : VmId) :
    (releasing v).Performs pool (Outcome.ofOption () (pool.release v)) := by
  rw [releasing, Edit.performs_read_bind, release]
  cases hv : pool.vms.get? v with
  | none => simp [Outcome.ofOption]
  | some vm =>
    rw [Edit.performs_some_bind]
    cases hp : vm.host with
    | none => simp [hp, Outcome.ofOption]
    | some h =>
      obtain ⟨host, hh⟩ := hr.ownership.exists_host hv hp
      cases hm : vm.migrationTarget with
      | none =>
        simp [Edit.Performs, Outcome.ofOption, droppingReservation, editing, hp, hm, hh]
      | some t =>
        obtain ⟨target, ht⟩ := hr.ownership.exists_target hv hm
        obtain ⟨s, hs, hne⟩ := hr.ownership.moving v vm t hv hm
        rw [hp, Option.some.injEq] at hs
        subst hs
        simp [Edit.Performs, Outcome.ofOption, droppingReservation, editing, hp, hm, hh, ht, hne]

theorem finishingMigration_performs (v : VmId) :
    (finishingMigration v).Performs pool (pool.finishMigration v) := by
  rw [finishingMigration, Edit.performs_read_bind, finishMigration]
  cases hv : pool.vms.get? v with
  | none => simp
  | some vm =>
    rw [Edit.performs_some_bind]
    cases hp : vm.host with
    | none => simp [hp]
    | some s =>
      rw [Edit.performs_some_bind]
      cases hm : vm.migrationTarget with
      | none => simp [hp, hm]
      | some t =>
        obtain ⟨host, hh⟩ := hr.ownership.exists_host hv hp
        obtain ⟨target, ht⟩ := hr.ownership.exists_target hv hm
        obtain ⟨s', hs, hne⟩ := hr.ownership.moving v vm t hv hm
        rw [hp, Option.some.injEq] at hs
        subst hs
        have hi := hr.ownership.get?_incoming hv ht hm
        obtain ⟨total, hsum⟩ := (hr.balanced t target ht).add_landing_eq_ok hi
        have hland := (Host.land_eq_done_iff _ _ _).mpr ⟨_, total, hi, hsum, rfl⟩
        have he := Host.landing_performs (hr.balanced t target ht) hi
        rw [hland] at he
        have hrun : (Host.landing v).run ⟨target, []⟩ = (.done (), ⟨_, []⟩) := he
        simp [Edit.Performs, editing, hp, hm, ht, hrun, hland, hh, hne, updateHost]

end Reachable

/-- Each operation can be carried out in place: its writes come to what it gives, a refusal leaves
the pool as it was, and no lapse is met. -/
structure ActsInPlace (pool : Pool α) : Prop where
  allocate : ∀ v h, (allocating v h).Performs pool (Prod.mk () <$> pool.allocate v h)
  release : ∀ v, (releasing v).Performs pool (Outcome.ofOption () (pool.release v))
  startMigration : ∀ v t,
    (startingMigration v t).Performs pool (Prod.mk () <$> pool.startMigration v t)
  finishMigration : ∀ v, (finishingMigration v).Performs pool (pool.finishMigration v)
  cancelMigration : ∀ v,
    (cancellingMigration v).Performs pool
      (Prod.mk () <$> Outcome.ofExcept (pool.cancelMigration v))
  updateVmMips : ∀ v mips,
    (updatingVmMips v mips).Performs pool (Prod.mk () <$> pool.updateVmMips v mips)

/-- Operations are done exactly if the record of the VM and the room on the host say so, and give
the host that the record names. On the way they find each host that a record names, and on it what
the record says. -/
theorem operations_follow_records {pool : Pool α} (hr : pool.Reachable) :
    (∀ v h, (∃ pool', pool.allocate v h = .done pool')
        ↔ (∃ vm, pool.vms.get? v = some vm ∧ vm.host = none)
          ∧ (∃ host, pool.hosts.get? h = some host) ∧ pool.canAllocate v h = .done ())
      ∧ (∀ v vm h reason, pool.vms.get? v = some vm → vm.host = none →
        (pool.allocate v h = .refused reason ↔ pool.canAllocate v h = .refused reason))
      ∧ (∀ v t, (∃ pool', pool.startMigration v t = .done pool')
        ↔ (∃ vm s, pool.vms.get? v = some vm ∧ vm.host = some s ∧ vm.isMigrating = false ∧ s ≠ t)
          ∧ (∃ target, pool.hosts.get? t = some target) ∧ pool.canAllocate v t = .done ())
      ∧ (∀ v, (∃ s pool', pool.finishMigration v = .done (s, pool'))
        ↔ ∃ vm, pool.vms.get? v = some vm ∧ vm.isMigrating = true)
      ∧ (∀ v s pool', pool.finishMigration v = .done (s, pool') →
        ∃ vm, pool.vms.get? v = some vm ∧ vm.host = some s)
      ∧ (∀ v, (∃ pool', pool.cancelMigration v = .ok pool')
        ↔ ∃ vm, pool.vms.get? v = some vm ∧ vm.isMigrating = true)
      ∧ (∀ v s, (∃ pool', pool.release v = some (s, pool'))
        ↔ ∃ vm, pool.vms.get? v = some vm ∧ vm.host = some s)
      ∧ pool.ActsInPlace := by
  refine ⟨hr.exists_allocate_iff,
    fun v vm h reason hv hidle => hr.allocate_eq_refused_iff hv hidle h reason,
    hr.exists_startMigration_iff, hr.exists_finishMigration_iff, fun v s pool' hdone => ?_,
    exists_cancelMigration_iff pool, hr.exists_release_iff, ?_⟩
  · obtain ⟨vm, t, target, target', hv, hs, -⟩ := (finishMigration_eq_done_iff _ _ _ _).mp hdone
    exact ⟨vm, hv, hs⟩
  · exact ⟨hr.allocating_performs, hr.releasing_performs, hr.startingMigration_performs,
      hr.finishingMigration_performs, hr.cancellingMigration_performs, hr.updatingVmMips_performs⟩

/-- A VM is on its way from one host to the other, one more would fit there and the third would
not. -/
def crowdedRun : List (Op Float) :=
  let host : HostSpec Float := ⟨"host", 4, 1000, 8192, 1000, 100000, .linear 200 0.5⟩
  let vm (ram : UInt64) : VmSpec Float := ⟨"tenant", 2, 500, ram, 100, 1000⟩
  [.addHost host, .addHost host, .addVm (vm 4096), .addVm (vm 4096), .addVm (vm 8192),
    .allocate 0 0, .startMigration 0 1]

theorem crowdedRun_answers : ∃ pool : Pool Float, empty.run crowdedRun = .ok pool
    ∧ pool.Reachable ∧ (∃ pool', pool.allocate 1 1 = .done pool')
    ∧ pool.allocate 2 1 = .refused (.notEnough .memory)
    ∧ (allocating 2 1).run ⟨pool, []⟩ = (.refused (.notEnough .memory), ⟨pool, []⟩)
    ∧ ∃ s pool', pool.finishMigration 0 = .done (s, pool')
      ∧ (finishingMigration 0).run ⟨pool, []⟩ = (.done s, ⟨pool', []⟩) := by
  have hrun : (empty.run crowdedRun).toOption.any (fun pool =>
      decide (pool.canAllocate 1 1 = .done ())
        && decide (pool.canAllocate 2 1 = .refused (.notEnough .memory))
        && (pool.vms.get? 0).any (·.isMigrating) && (pool.vms.get? 1).any (·.host.isNone)
        && (pool.vms.get? 2).any (·.host.isNone) && (pool.hosts.get? 1).isSome) = true := by
    decide +kernel
  obtain ⟨pool, hp, htest⟩ := Checked.eq_ok_of_any hrun
  have hr := reachable_of_run hp
  obtain ⟨hallocate, hrefused, -, hfinish, -, -, -, hplace⟩ := operations_follow_records hr
  simp only [Bool.and_eq_true, decide_eq_true_eq, Option.any_eq_true, Option.isNone_iff_eq_none,
    Option.isSome_iff_exists] at htest
  obtain ⟨⟨⟨⟨⟨hfits, hshort⟩, hmoving⟩, hone⟩, ⟨vm, hv, hidle⟩⟩, hhost⟩ := htest
  obtain ⟨s, pool', hdone⟩ := (hfinish 0).mpr hmoving
  have htwo := (hrefused 2 vm 1 _ hv hidle).mpr hshort
  have hstill := hplace.allocate 2 1
  rw [htwo] at hstill
  have hlanded := hplace.finishMigration 0
  rw [hdone] at hlanded
  exact ⟨pool, hp, hr, (hallocate 1 1).mpr ⟨hone, hhost, hfits⟩, htwo, hstill, s, pool', hdone,
    hlanded⟩

/-- A record that names a host which does not exist leaves a lapse. -/
example :
    let waiting : Vm Float := Vm.create 0 ⟨"tenant", 2, 500, 4096, 100, 1000⟩
    let vm := { waiting with host := some 0, migrationTarget := some 7 }
    ((cancellingMigration 0).run ⟨empty.withVm 0 vm, []⟩).2.lapses = [.missing 7] := by
  rfl

end Datacenter.Pool
