import Datacenter.Proofs.HostBalance
import Datacenter.Proofs.PlanningLoad

/-!
# Capacity of the hosts of a pool

A change of a pool changes its hosts by steps, so that what every step keeps holds for every host of
a reachable pool. In particular all of them are balanced, and an operation faults only when ids run
out.

Main statements: `Reachable.allHosts`, `Reachable.balanced` and `apply_eq_error`.
-/

namespace Datacenter.Pool

variable {α : Type} [Scalar α]

/-! ### Properties of all hosts -/

omit [Scalar α] in
def AllHosts (P : Host α → Prop) (pool : Pool α) : Prop :=
  ∀ h host, pool.hosts.get? h = some host → P host

namespace AllHosts

variable {P : Host α → Prop} {pool pool' : Pool α}

omit [Scalar α] in
theorem withHost (hp : pool.AllHosts P) (h : HostId) {host : Host α} (hhost : P host) :
    (pool.withHost h host).AllHosts P := by
  intro g host' hg
  rw [hosts_withHost, Table.get?_insert] at hg
  split at hg
  · cases hg
    exact hhost
  · exact hp g host' hg

omit [Scalar α] in
theorem updateHost (hp : pool.AllHosts P) (h : HostId) {f : Host α → Host α}
    (hf : ∀ host, P host → P (f host)) : (pool.updateHost h f).AllHosts P := by
  cases hh : pool.hosts.get? h with
  | none =>
    simp only [Pool.updateHost, hh]
    exact hp
  | some host =>
    rw [updateHost_of_get? hh]
    exact hp.withHost h (hf host (hp h host hh))

theorem withoutReservation (hp : pool.AllHosts P) (hcancel : ∀ host v, P host → P (host.cancel v))
    (v : VmId) (vm : Vm α) : (pool.withoutReservation v vm).AllHosts P := by
  rw [Pool.withoutReservation]
  split
  · exact hp
  · exact hp.updateHost _ fun host => hcancel host v

/-- What a new host has and every step keeps is kept by every change, if the demands of the VMs that
are there after it are admitted. -/
theorem change {admits : Resources α → Prop} (hp : pool.AllHosts P)
    (create : ∀ id spec, P (Host.create id spec))
    (step : ∀ host host', P host → Host.Step admits host host' → P host')
    (hadmits : ∀ v vm, pool'.vms.get? v = some vm → admits vm.demand)
    {op : Op α} (hc : Change op pool pool') : pool'.AllHosts P := by
  have hcancel : ∀ (host : Host α) (v : VmId), P host → P (host.cancel v) :=
    fun host v h => step _ _ h (.cancel host v)
  have hrelease : ∀ (host : Host α) (v : VmId), P host → P (host.release v) :=
    fun host v h => step _ _ h (.release host v)
  have hlast : ∀ (between : Pool α) (v : VmId) (vm : Vm α),
      (between.withVm v vm).vms.get? v = some vm := by
    intro between v vm
    rw [vms_withVm, Table.get?_insert, if_pos rfl]
  cases hc with
  | addHost h =>
    obtain ⟨-, -, rfl⟩ := (addHost_eq_ok_iff _ _ _ _).mp h
    exact hp.withHost _ (create _ _)
  | addVm h =>
    obtain ⟨-, -, rfl⟩ := (addVm_eq_ok_iff _ _ _ _).mp h
    exact hp
  | removeVm h =>
    obtain ⟨-, -, rfl⟩ := (removeVm_eq_ok_iff _ _ _ _).mp h
    exact hp
  | allocate h =>
    obtain ⟨vm, host, host', -, -, hh, ha, rfl⟩ := (allocate_eq_done_iff _ _ _ _).mp h
    have hd := hadmits _ _ (hlast _ _ _)
    exact hp.withHost _ (step _ _ (hp _ _ hh) (.allocate hd ha))
  | release h =>
    obtain ⟨vm, -, -, rfl⟩ := release_eq_some h
    exact (hp.withoutReservation hcancel _ _).updateHost _ fun host => hrelease host _
  | startMigration h =>
    obtain ⟨vm, s, target, target', -, -, -, -, ht, hr, rfl⟩ :=
      (startMigration_eq_done_iff _ _ _ _).mp h
    have hd := hadmits _ _ (hlast _ _ _)
    exact hp.withHost _ (step _ _ (hp _ _ ht) (.reserve hd hr))
  | finishMigration h =>
    obtain ⟨vm, t, target, target', -, -, -, ht, hl, rfl⟩ :=
      (finishMigration_eq_done_iff _ _ _ _).mp h
    have htarget := hp.withHost t (step _ _ (hp _ _ ht) (.land hl))
    exact htarget.updateHost _ fun host => hrelease host _
  | cancelMigration h =>
    obtain ⟨vm, t, -, -, rfl⟩ := (cancelMigration_eq_ok_iff _ _ _).mp h
    exact hp.withoutReservation hcancel _ _
  | updateVmMips h =>
    obtain ⟨vm, -, -, hcases⟩ := (updateVmMips_eq_done_iff _ _ _ _).mp h
    rcases hcases with ⟨-, rfl⟩ | ⟨g, host, host', -, hg, hz, rfl⟩
    · exact hp
    · exact hp.withHost _ (step _ _ (hp _ _ hg) (.resize (hadmits _ _ (hlast _ _ _)) hz))

end AllHosts

/-- What a new host has and every step keeps holds for every host of a reachable pool. -/
theorem Reachable.allHosts {P : Host α → Prop} (create : ∀ id spec, P (Host.create id spec))
    (step : ∀ host host', P host → Host.Step (fun _ => True) host host' → P host')
    {pool : Pool α} (hr : pool.Reachable) : pool.AllHosts P := by
  refine hr.invariant (fun h host hh => ?_) fun op a b hp hc => ?_
  · rw [empty, Table.get?_emptyCollection] at hh
    cases hh
  · exact hp.change create step (fun _ _ _ => trivial) hc

theorem Reachable.balanced {pool : Pool α} (hr : pool.Reachable) : pool.AllHosts Host.Balanced :=
  hr.allHosts Host.Balanced.create fun _ _ hb hs => hb.step hs

/-! ### Operations without overflow -/

/-- The operation would need an id that is no word of 32 bits. -/
def Op.OutOfIds (pool : Pool α) : Op α → Prop
  | .addHost _ => UInt32.size ≤ pool.nextHost + 1
  | .addVm _ => UInt32.size ≤ pool.nextVm + 1
  | _ => False

omit [Scalar α] in
theorem nextId_eq_error {id : Nat} {e : Fault} (h : nextId id = .error e) :
    UInt32.size ≤ id + 1 := by
  rw [nextId] at h
  split at h
  · cases h
  · omega

omit [Scalar α] in
theorem settle_ne_error {β : Type} {pool : Pool α} {after : β → Pool α} {x : Outcome Refusal β}
    (hx : x.IsSettled) (e : Fault) : pool.settle after x ≠ .error e := by
  cases x with
  | done value => simp [settle]
  | refused reason => simp [settle]
  | fault e' => exact absurd rfl (hx e')

section

variable {pool : Pool α} (hb : pool.AllHosts Host.Balanced)

include hb

theorem canAllocate_isSettled (v : VmId) (h : HostId) : (pool.canAllocate v h).IsSettled := by
  rw [canAllocate]
  split
  · exact Outcome.isSettled_refused _
  · split
    · exact Outcome.isSettled_refused _
    · rename_i host hh
      obtain ⟨shortage, hs⟩ := (hb h host hh).shortage _
      rw [hs, Outcome.lift_eq, Outcome.ofChecked_ok, Outcome.done_bind]
      cases shortage with
      | none => exact Outcome.isSettled_done _
      | some dimension => exact Outcome.isSettled_refused _

theorem allocate_isSettled (v : VmId) (h : HostId) : (pool.allocate v h).IsSettled := by
  rw [allocate]
  split
  · exact Outcome.isSettled_refused _
  · split
    · exact Outcome.isSettled_refused _
    · split
      · exact Outcome.isSettled_refused _
      · rename_i host hh
        refine Outcome.IsSettled.bind ((hb h host hh).allocate_isSettled v _) fun host' _ => ?_
        exact Outcome.isSettled_done _

theorem startMigration_isSettled (v : VmId) (t : HostId) : (pool.startMigration v t).IsSettled := by
  rw [startMigration]
  split
  · exact Outcome.isSettled_refused _
  · split
    · exact Outcome.isSettled_refused _
    · split
      · exact Outcome.isSettled_refused _
      · split
        · exact Outcome.isSettled_refused _
        · split
          · exact Outcome.isSettled_refused _
          · rename_i target ht
            refine Outcome.IsSettled.bind ((hb t target ht).reserve_isSettled v _) fun _ _ => ?_
            exact Outcome.isSettled_done _

theorem finishMigration_isSettled (v : VmId) : (pool.finishMigration v).IsSettled := by
  rw [finishMigration]
  split
  · exact Outcome.isSettled_refused _
  · split
    · exact Outcome.isSettled_refused _
    · exact Outcome.isSettled_refused _
    · split
      · exact Outcome.isSettled_refused _
      · rename_i target ht
        refine Outcome.IsSettled.bind ((hb _ target ht).land_isSettled v) fun _ _ => ?_
        exact Outcome.isSettled_done _

theorem updateVmMips_isSettled (v : VmId) (mips : α) : (pool.updateVmMips v mips).IsSettled := by
  rw [updateVmMips]
  split
  · exact Outcome.isSettled_refused _
  · split
    · exact Outcome.isSettled_refused _
    · simp only
      split
      · exact Outcome.isSettled_done _
      · split
        · exact Outcome.isSettled_refused _
        · rename_i host hh
          refine Outcome.IsSettled.bind ((hb _ host hh).resize_isSettled v _) fun _ _ => ?_
          exact Outcome.isSettled_done _

/-- An operation faults only because ids run out: no amount overflows. -/
theorem apply_eq_error {op : Op α} {e : Fault} (h : op.apply pool = .error e) :
    op.OutOfIds pool := by
  cases op with
  | addHost spec =>
    simp only [Op.apply, addHost] at h
    cases hn : nextId pool.nextHost with
    | error e' => exact nextId_eq_error hn
    | ok next =>
      rw [hn] at h
      cases h
  | addVm spec =>
    simp only [Op.apply, addVm] at h
    cases hn : nextId pool.nextVm with
    | error e' => exact nextId_eq_error hn
    | ok next =>
      rw [hn] at h
      cases h
  | removeVm v => cases h
  | allocate v host => exact absurd h (settle_ne_error (allocate_isSettled hb v host) e)
  | release v => cases h
  | startMigration v t => exact absurd h (settle_ne_error (startMigration_isSettled hb v t) e)
  | finishMigration v => exact absurd h (settle_ne_error (finishMigration_isSettled hb v) e)
  | cancelMigration v => cases h
  | updateVmMips v mips => exact absurd h (settle_ne_error (updateVmMips_isSettled hb v mips) e)
  | evictHost host => cases h

end

/-! ### Accounts -/

theorem Reachable.carries_stock {pool : Pool α} (hr : pool.Reachable) (k : Stock) :
    pool.AllHosts fun host => host.Carries fun d => d.stock k := by
  intro h host hh
  exact ((hr.balanced h host hh).covers_stock k).carries (Resources.isAmount_stock k)
    (fun _ _ _ => Nat.zero_le _) fun _ _ _ => Nat.zero_le _

theorem Reachable.planningLoad_stock {pool : Pool α} (hr : pool.Reachable) {h : HostId}
    {host : Host α} (hh : pool.hosts.get? h = some host) :
    ∃ load, pool.planningLoad h = .ok load ∧ ∀ k,
      load.stock k + pool.outgoing (fun d => d.stock k) host
        = host.residentTotal.stock k + host.incomingTotal.stock k := by
  obtain ⟨allocated, ha, -, hsum⟩ := (hr.balanced h host hh).allocated
  obtain ⟨load, hl⟩ := hr.ownership.planningLoad_eq_ok hh ha
  refine ⟨load, hl, fun k => ?_⟩
  have hc := hr.carries_stock k h host hh
  rw [← hsum k]
  exact planningLoad_exact (Resources.isAmount_stock k) hh hc ha hl

/-- In memory, bandwidth and storage, the totals of each host are the sums of its entries and stay
within its capacity together. So no difference stops short, no sum overflows, and an idle host has
nothing allocated. -/
theorem capacity_accounting {pool : Pool α} (hr : pool.Reachable) :
    (∀ h host, pool.hosts.get? h = some host →
      (∀ k, host.residentTotal.stock k = host.residentStock k
        ∧ host.incomingTotal.stock k = host.incomingStock k
        ∧ host.residentTotal.stock k + host.incomingTotal.stock k ≤ host.capacity.stock k)
      ∧ (∀ v d k, host.resident.get? v = some d →
        (host.release v).residentTotal.stock k + d.stock k = host.residentTotal.stock k)
      ∧ (∀ v d k, host.incoming.get? v = some d →
        (host.cancel v).incomingTotal.stock k + d.stock k = host.incomingTotal.stock k)
      ∧ (∀ v d demand host' k, host.resident.get? v = some d →
        host.resize v demand = .done host' →
        host'.residentTotal.stock k + d.stock k = host.residentTotal.stock k + demand.stock k)
      ∧ (∃ allocated available load, host.allocated = .ok allocated
        ∧ host.available = .ok available ∧ pool.planningLoad h = .ok load
        ∧ (∀ k, allocated.stock k = host.residentTotal.stock k + host.incomingTotal.stock k)
        ∧ (∀ k, available.stock k + allocated.stock k = host.capacity.stock k)
        ∧ (∀ k, load.stock k + pool.outgoing (fun d => d.stock k) host = allocated.stock k)
        ∧ (host.isIdle = true → ∀ k, allocated.stock k = 0))
      ∧ ∀ v demand, (host.resize v demand).IsSettled)
    ∧ (∀ (op : Op α) (e : Fault), op.apply pool = .error e → op.OutOfIds pool)
    ∧ ∀ v h, (pool.canAllocate v h).IsSettled := by
  refine ⟨fun h host hh => ?_, fun _ _ => apply_eq_error hr.balanced,
    canAllocate_isSettled hr.balanced⟩
  have hb := hr.balanced h host hh
  obtain ⟨allocated, ha, -, hsum⟩ := hb.allocated
  obtain ⟨available, hfree, hrest⟩ := hb.available
  obtain ⟨load, hl, hload⟩ := hr.planningLoad_stock hh
  refine ⟨fun k => ⟨hb.resident k, hb.incoming k, hb.within k⟩,
    fun v d k hv => hb.stock_release hv k, fun v d k hv => hb.stock_cancel hv k,
    fun v d demand host' k hv hz => hb.stock_resize hv hz k,
    ⟨allocated, available, load, ha, hfree, hl, hsum, fun k => ?_, fun k => ?_,
      fun hidle k => ?_⟩,
    hb.resize_isSettled⟩
  · have hk := hrest k
    rw [hsum k]
    omega
  · rw [hsum k]
    exact hload k
  · obtain ⟨hresident, hincoming⟩ := hb.stock_eq_zero_of_isIdle hidle k
    rw [hsum k, hresident, hincoming]

/-- A VM moves to a host whose memory it fills up together with the VM that runs there. -/
def fillingRun : List (Op Float) :=
  let host : HostSpec Float :=
    ⟨"host", 4, 1000, 0xffffffffffffffff, 1000, 100000, .linear 200 0.5⟩
  [.addHost host, .addHost host, .addVm ⟨"tenant", 1, 500, 0x8000000000000000, 100, 1000⟩,
    .addVm ⟨"tenant", 1, 500, 0x7fffffffffffffff, 100, 1000⟩, .allocate 0 0, .allocate 1 1,
    .startMigration 1 0]

theorem fillingRun_accounting : ∃ pool host, empty.run fillingRun = .ok pool ∧ pool.Reachable
    ∧ pool.hosts.get? 0 = some host ∧ host.residentStock .memory = 2 ^ 63
    ∧ host.incomingStock .memory = 2 ^ 63 - 1 ∧ host.capacity.stock .memory = 2 ^ 64 - 1 := by
  have hrun : (empty.run fillingRun).toOption.any (fun pool =>
      (pool.hosts.get? 0).any fun host => host.residentTotal.stock .memory == 2 ^ 63
        && host.incomingTotal.stock .memory == 2 ^ 63 - 1
        && host.capacity.stock .memory == 2 ^ 64 - 1) = true := by
    decide +kernel
  obtain ⟨pool, hp, htest⟩ := Checked.eq_ok_of_any hrun
  have hr := reachable_of_run hp
  simp only [Option.any_eq_true, Bool.and_eq_true, beq_iff_eq] at htest
  obtain ⟨host, hh, ⟨hresident, hincoming⟩, hcapacity⟩ := htest
  obtain ⟨htotals, -⟩ := (capacity_accounting hr).1 0 host hh
  obtain ⟨hr', hi', -⟩ := htotals .memory
  exact ⟨pool, host, hp, hr, hh, hr' ▸ hresident, hi' ▸ hincoming, hcapacity⟩

end Datacenter.Pool
