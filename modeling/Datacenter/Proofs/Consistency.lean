import Datacenter.Proofs.ExactTotals
import Datacenter.Pool.Consistency

/-!
# What the check of a pool finds

Hosts and VMs of a reachable pool always agree, and words always stay within their capacity. So the
check finds at most that a host has too much in compute rates. Each admission that looks at rates
grants the tolerance anew, on top of what the host has by then: the excess grows with the number of
admissions, and the check tolerates it once.

Main statements: `Reachable.checkConsistency_eq` and `Overcommitted.run`.
-/

namespace Datacenter

/-! ### Hosts beyond the tolerance -/

/-- More is allocated than the compute capacity and the tolerance. -/
def Host.Exceeds {α : Type} [Scalar α] (host : Host α) : Prop :=
  host.capacity.mips + Scalar.epsilon < host.residentTotal.mips + host.incomingTotal.mips

instance {α : Type} [Scalar α] (host : Host α) : Decidable host.Exceeds :=
  inferInstanceAs (Decidable (_ < _))

namespace Pool

variable {α : Type} {pool pool' : Pool α}

theorem demandThat_eq (condition : Bool) (reason : Inconsistency) :
    demandThat condition reason = if condition = true then .done () else .refused reason := rfl

section

variable [Scalar α]

/-! ### What never goes wrong -/

theorem Ownership.checkResidents_eq (own : pool.Ownership) {h : HostId} {host : Host α}
    (hh : pool.hosts.get? h = some host) {vs : List VmId} (hvs : ∀ v ∈ vs, v ∈ host.resident.keys) :
    pool.checkResidents host vs = .done () := by
  induction vs with
  | nil => rfl
  | cons v vs ih =>
    obtain ⟨p, hp, hhost⟩ := (own.mem_resident_iff hh v).mp (hvs v List.mem_cons_self)
    obtain ⟨vm, hv, hplaced, -⟩ := (placement_eq_some_iff _ _ _).mp hp
    have hid := (own.host_id h host hh).1
    rw [checkResidents, demandThat_eq, hv, Option.bind_some, hplaced, hhost, hid, beq_self_eq_true,
      if_pos rfl, Outcome.done_bind]
    exact ih fun w hw => hvs w (List.mem_cons_of_mem _ hw)

theorem Ownership.checkIncoming_eq (own : pool.Ownership) {h : HostId} {host : Host α}
    (hh : pool.hosts.get? h = some host) {vs : List VmId} (hvs : ∀ v ∈ vs, v ∈ host.incoming.keys) :
    pool.checkIncoming host vs = .done () := by
  induction vs with
  | nil => rfl
  | cons v vs ih =>
    obtain ⟨p, hp, htarget⟩ := (own.mem_incoming_iff hh v).mp (hvs v List.mem_cons_self)
    obtain ⟨vm, hv, -, hmoving⟩ := (placement_eq_some_iff _ _ _).mp hp
    have hid := (own.host_id h host hh).1
    rw [checkIncoming, demandThat_eq, hv, Option.bind_some, hmoving, htarget, hid, beq_self_eq_true,
      if_pos rfl, Outcome.done_bind]
    exact ih fun w hw => hvs w (List.mem_cons_of_mem _ hw)

/-- As many hosts have the VM as its record names. -/
theorem Ownership.countP_hosts (own : pool.Ownership) {v : VmId} {vm : Vm α}
    (hv : pool.vms.get? v = some vm) :
    pool.hosts.values.countP (fun host => host.resident.contains v)
      = if vm.host.isSome then 1 else 0 := by
  have hresident : ∀ e ∈ pool.hosts.entries,
      e.2.resident.contains v = true ↔ vm.host = some e.1 := by
    intro e he
    have hh := (Table.mem_entries_iff _ _ _).mp he
    rw [Table.contains, ← residentShare_of_get? hh, own.resident_of_get? hv]
    split
    · rename_i hp
      simp [hp]
    · rename_i hp
      simp [hp]
  rw [Table.values_eq, List.countP_map]
  cases hp : vm.host with
  | none =>
    rw [Option.isSome_none, if_neg Bool.false_ne_true, List.countP_eq_zero]
    intro e he hcontains
    rw [Function.comp_apply, hresident e he, hp] at hcontains
    cases hcontains
  | some g =>
    obtain ⟨host, hh⟩ := own.exists_host hv hp
    have hkey : g ∈ pool.hosts.keys := (Table.mem_keys_iff _ _).mpr ⟨host, hh⟩
    rw [Option.isSome_some, if_pos rfl, ← List.count_eq_one_of_mem pool.hosts.nodup_keys hkey,
      Table.keys_eq, List.count_eq_countP, List.countP_map]
    refine List.countP_congr fun e he => ?_
    rw [Function.comp_apply, hresident e he, hp, Function.comp_apply, beq_iff_eq,
      Option.some.injEq, eq_comm]

theorem Ownership.checkVms_eq (own : pool.Ownership) {vms : List (Vm α)}
    (hvms : ∀ vm ∈ vms, ∃ v, pool.vms.get? v = some vm) :
    pool.checkVms pool.hosts.values vms = .done () := by
  induction vms with
  | nil => rfl
  | cons vm vms ih =>
    obtain ⟨v, hv⟩ := hvms vm List.mem_cons_self
    have hid := (own.vm_id v vm hv).1
    have hrest := ih fun w hw => hvms w (List.mem_cons_of_mem _ hw)
    rw [checkVms, hid, own.countP_hosts hv]
    simp only [demandThat_eq, beq_self_eq_true, if_true, Outcome.done_bind]
    cases hm : vm.migrationTarget with
    | none => exact hrest
    | some t =>
      obtain ⟨target, ht⟩ := own.exists_target hv hm
      have hincoming : target.incoming.contains v = true := by
        rw [Table.contains, ← incomingShare_of_get? ht, own.incoming_of_get? hv, if_pos hm]
        rfl
      simp only [ht, Option.any_some, hincoming, if_true, Outcome.done_bind]
      exact hrest

/-! ### What the check finds -/

/-- The first of the hosts that has too much is found, if there is one. -/
theorem Reachable.checkHosts_eq (hr : pool.Reachable) {hosts : List (Host α)}
    (hhosts : ∀ host ∈ hosts, ∃ h, pool.hosts.get? h = some host) :
    pool.checkHosts hosts
      = match hosts.find? fun host => decide host.Exceeds with
        | none => .done ()
        | some host => .refused (.capacityExceeded host.id) := by
  induction hosts with
  | nil => rfl
  | cons host hosts ih =>
    obtain ⟨h, hh⟩ := hhosts host List.mem_cons_self
    have hb := hr.balanced h host hh
    obtain ⟨allocated, ha, hmips, hstock⟩ := hb.allocated
    -- Words stay within the capacity, so only compute rates can be short.
    have hshort : host.capacity.shortage allocated = none ↔ ¬host.Exceeds := by
      rw [Resources.shortage_eq_none_iff, hmips, Host.Exceeds, and_iff_left fun k => ?_]
      exact (hstock k).trans_le (hb.within k)
    simp only [checkHosts, ha, Outcome.lift_eq, Outcome.ofChecked_ok, Outcome.done_bind,
      demandThat_eq]
    by_cases hx : host.Exceeds
    · have hfind : (host :: hosts).find? (fun host => decide host.Exceeds) = some host :=
        List.find?_cons_of_pos (decide_eq_true hx)
      have hsome : (host.capacity.shortage allocated).isNone = false := by
        rw [← Bool.not_eq_true, Option.isNone_iff_eq_none, hshort, not_not]
        exact hx
      rw [hsome, hfind]
      rfl
    · have hfind : (host :: hosts).find? (fun host => decide host.Exceeds)
          = hosts.find? fun host => decide host.Exceeds :=
        List.find?_cons_of_neg (by simpa using hx)
      rw [hshort.mpr hx, hr.ownership.checkResidents_eq hh fun _ hv => hv,
        hr.ownership.checkIncoming_eq hh fun _ hv => hv, hfind]
      exact ih fun x hx => hhosts x (List.mem_cons_of_mem _ hx)

/-- The check of a reachable pool names the first host that has too much in compute rates, and finds
nothing else. -/
theorem Reachable.checkConsistency_eq (hr : pool.Reachable) :
    pool.checkConsistency
      = match pool.hosts.values.find? fun host => decide host.Exceeds with
        | none => .done ()
        | some host => .refused (.capacityExceeded host.id) := by
  rw [checkConsistency, hr.checkHosts_eq fun host hh => (Table.mem_values_iff _ _).mp hh]
  split
  · exact hr.ownership.checkVms_eq fun vm hv => (Table.mem_values_iff _ _).mp hv
  · rfl

end

end Pool

/-! ### What an admission adds -/

section

variable {K : Type} [ExactScalar K]

theorem Scalar.epsilon_nonneg : (0 : K) ≤ epsilon := by
  rw [epsilon]
  norm_num

namespace Host

/-- Totals are exact, and at most so much above the compute capacity. -/
structure Bounded (host : Host K) (excess : K) : Prop where
  balanced : host.Balanced
  exact : host.Exact fun d => d.mips
  le : host.residentTotal.mips + host.incomingTotal.mips ≤ host.capacity.mips + excess

namespace Bounded

variable {host host' : Host K} {excess : K} {v : VmId} {demand : Resources K}

theorem create (id : HostId) {spec : HostSpec K} (hspec : 0 ≤ spec.mipsPerCore)
    (hx : 0 ≤ excess) : (Host.create id spec).Bounded excess where
  balanced := .create id spec
  exact := .create Resources.isAmount_mips id spec
  le := by
    have hcapacity : 0 ≤ (Host.create id spec).capacity.mips :=
      mul_nonneg (Nat.cast_nonneg _) hspec
    change (0 : K) + 0 ≤ _
    linarith

theorem mono (h : host.Bounded excess) {more : K} (hle : excess ≤ more) : host.Bounded more :=
  ⟨h.balanced, h.exact, h.le.trans (by linarith)⟩

theorem release (h : host.Bounded excess) (v : VmId) : (host.release v).Bounded excess := by
  cases hv : host.resident.get? v with
  | none =>
    rw [Host.release, hv]
    exact h
  | some demand =>
    refine ⟨h.balanced.release v, h.exact.release Resources.isAmount_mips v, ?_⟩
    have hsub := h.exact.resident.sub_add Resources.isAmount_mips hv
    have hdemand := h.exact.resident.nonneg v demand hv
    have hle := h.le
    rw [release_of_get? hv]
    change (host.residentTotal.sub demand).mips + host.incomingTotal.mips ≤ host.capacity.mips + _
    linarith

theorem cancel (h : host.Bounded excess) (v : VmId) : (host.cancel v).Bounded excess := by
  cases hv : host.incoming.get? v with
  | none =>
    rw [Host.cancel, hv]
    exact h
  | some demand =>
    refine ⟨h.balanced.cancel v, h.exact.cancel Resources.isAmount_mips v, ?_⟩
    have hsub := h.exact.incoming.sub_add Resources.isAmount_mips hv
    have hdemand := h.exact.incoming.nonneg v demand hv
    have hle := h.le
    rw [cancel_of_get? hv]
    change host.residentTotal.mips + (host.incomingTotal.sub demand).mips ≤ host.capacity.mips + _
    linarith

theorem land (h : host.Bounded excess) (hl : host.land v = .done host') :
    host'.Bounded excess := by
  have hstep : Step (fun d => 0 ≤ d.mips) host host' := .land hl
  refine ⟨h.balanced.step hstep, h.exact.step h.balanced Resources.isAmount_mips hstep, ?_⟩
  obtain ⟨demand, total, hv, ht, rfl⟩ := (land_eq_done_iff _ _ _).mp hl
  have hsub := h.exact.incoming.sub_add Resources.isAmount_mips hv
  have hadd := Resources.isAmount_mips.add ht
  have hle := h.le
  change total.mips + (host.incomingTotal.sub demand).mips ≤ host.capacity.mips + _
  linarith

/-- What is left of the capacity is nothing where more than that is allocated. -/
theorem available_le (h : host.Bounded excess) (hx : 0 ≤ excess) {available : Resources K}
    (ha : host.available = .ok available) :
    host.residentTotal.mips + host.incomingTotal.mips + available.mips
      ≤ host.capacity.mips + excess := by
  obtain ⟨allocated, hallocated, hmips, -⟩ := h.balanced.allocated
  rw [Host.available, hallocated] at ha
  cases ha
  have hle := h.le
  rw [Resources.mips_sub, Scalar.larger_eq_max, hmips]
  rcases max_choice (host.capacity.mips
    - (host.residentTotal.mips + host.incomingTotal.mips)) 0 with hmax | hmax
  · rw [hmax]
    linarith
  · rw [hmax]
    linarith

theorem admitted_le (h : host.Bounded excess) (hx : 0 ≤ excess)
    (hs : host.shortage demand = .ok none) :
    host.residentTotal.mips + host.incomingTotal.mips + demand.mips
      ≤ host.capacity.mips + (excess + Scalar.epsilon) := by
  obtain ⟨allocated, ha, hnone⟩ := (shortage_eq_none_iff host demand).mp hs
  have havailable : host.available = .ok (host.capacity.sub allocated) := by
    rw [available, ha]
    rfl
  have hroom := not_lt.mp ((Resources.shortage_eq_none_iff _ _).mp hnone).1
  have hle := h.available_le hx havailable
  linarith

/-- Whatever is admitted, the tolerance is granted on top of what the host has. -/
theorem step (h : host.Bounded excess) (hx : 0 ≤ excess)
    (hs : Step (fun d => 0 ≤ d.mips) host host') : host'.Bounded (excess + Scalar.epsilon) := by
  have hmore : excess ≤ excess + Scalar.epsilon := le_add_of_nonneg_right Scalar.epsilon_nonneg
  refine ⟨h.balanced.step hs, h.exact.step h.balanced Resources.isAmount_mips hs, ?_⟩
  cases hs with
  | allocate _ ha =>
    obtain ⟨-, -, hshort, total, ht, rfl⟩ := (allocate_eq_done_iff _ _ _ _).mp ha
    have hle := h.admitted_le hx hshort
    have hadd := Resources.isAmount_mips.add ht
    change total.mips + host.incomingTotal.mips ≤ host.capacity.mips + _
    linarith
  | release v => exact ((h.release v).mono hmore).le
  | reserve _ ha =>
    obtain ⟨-, -, hshort, total, ht, rfl⟩ := (reserve_eq_done_iff _ _ _ _).mp ha
    have hle := h.admitted_le hx hshort
    have hadd := Resources.isAmount_mips.add ht
    change host.residentTotal.mips + total.mips ≤ host.capacity.mips + _
    linarith
  | cancel v => exact ((h.cancel v).mono hmore).le
  | land hl => exact ((h.land hl).mono hmore).le
  | resize _ hz =>
    obtain ⟨current, available, room, total, hv, ha, hr, hshort, ht, rfl⟩ :=
      (resize_eq_done_iff _ _ _ _).mp hz
    have hroom := not_lt.mp ((Resources.shortage_eq_none_iff _ _).mp hshort).1
    have hfree := Resources.isAmount_mips.add hr
    have hle := h.available_le hx ha
    have hsub := h.exact.resident.sub_add Resources.isAmount_mips hv
    have hadd := Resources.isAmount_mips.add ht
    change total.mips + host.incomingTotal.mips ≤ host.capacity.mips + _
    linarith

end Bounded

end Host

/-! ### Admissions of a run -/

namespace Pool

/-- Rates of hosts and VMs of the operation are of an admitted kind. -/
def Op.RatesIn {α : Type} (rates : α → Prop) : Op α → Prop
  | .addHost spec => rates spec.mipsPerCore
  | .addVm spec => rates spec.mips
  | .updateVmMips _ mips => rates mips
  | _ => True

/-- The operation asks a host for room. -/
def Op.asksForRoom {α : Type} : Op α → Bool
  | .allocate _ _ | .startMigration _ _ | .updateVmMips _ _ => true
  | _ => false

variable {pool pool' : Pool K} {op : Op K} {excess : K}

theorem NonNegative.of_ratesIn (hn : pool.NonNegative) (hop : op.RatesIn (0 ≤ ·))
    (h : Change op pool pool') : pool'.NonNegative := by
  have hkeeps : op.AsksFor (0 ≤ ·) → pool'.NonNegative := fun hasks => hn.change hasks h
  cases h with
  | removeVm h =>
    obtain ⟨-, -, rfl⟩ := (removeVm_eq_ok_iff _ _ _ _).mp h
    intro v vm hv
    rw [Table.get?_erase] at hv
    split at hv
    · cases hv
    · exact hn v vm hv
  | addVm | updateVmMips => exact hkeeps hop
  | addHost | allocate | release | startMigration | finishMigration | cancelMigration =>
    exact hkeeps trivial

/-- No VM asks for a negative rate, and each host has at most so much above its capacity. -/
structure Overcommitted (pool : Pool K) (excess : K) : Prop where
  nonneg : pool.NonNegative
  hosts : pool.AllHosts (·.Bounded excess)

namespace Overcommitted

theorem change (h : pool.Overcommitted excess) (hx : 0 ≤ excess) (hop : op.RatesIn (0 ≤ ·))
    (hc : Change op pool pool') :
    pool'.Overcommitted (if op.asksForRoom then excess + Scalar.epsilon else excess) := by
  have hmore : excess ≤ excess + Scalar.epsilon := le_add_of_nonneg_right Scalar.epsilon_nonneg
  have hall : pool.AllHosts (·.Bounded (excess + Scalar.epsilon)) :=
    fun g host hg => (h.hosts g host hg).mono hmore
  have hn := h.nonneg.of_ratesIn hop hc
  refine ⟨hn, ?_⟩
  cases hc with
  | addHost hadd =>
    obtain ⟨-, -, rfl⟩ := (addHost_eq_ok_iff _ _ _ _).mp hadd
    exact h.hosts.withHost _ (.create _ hop hx)
  | addVm hadd =>
    obtain ⟨-, -, rfl⟩ := (addVm_eq_ok_iff _ _ _ _).mp hadd
    exact h.hosts
  | removeVm hremove =>
    obtain ⟨-, -, rfl⟩ := (removeVm_eq_ok_iff _ _ _ _).mp hremove
    exact h.hosts
  | allocate hdone =>
    obtain ⟨vm, host, host', hv, -, hg, ha, rfl⟩ := (allocate_eq_done_iff _ _ _ _).mp hdone
    exact hall.withHost _ ((h.hosts _ _ hg).step hx (.allocate (h.nonneg _ _ hv) ha))
  | release hsome =>
    obtain ⟨vm, -, -, rfl⟩ := release_eq_some hsome
    exact (h.hosts.withoutReservation (fun _ v hb => hb.cancel v) _ _).updateHost _
      fun _ hb => hb.release _
  | startMigration hdone =>
    obtain ⟨vm, s, target, target', hv, -, -, -, ht, hr, rfl⟩ :=
      (startMigration_eq_done_iff _ _ _ _).mp hdone
    exact hall.withHost _ ((h.hosts _ _ ht).step hx (.reserve (h.nonneg _ _ hv) hr))
  | finishMigration hdone =>
    obtain ⟨vm, t, target, target', -, -, -, ht, hl, rfl⟩ :=
      (finishMigration_eq_done_iff _ _ _ _).mp hdone
    exact (h.hosts.withHost t ((h.hosts _ _ ht).land hl)).updateHost _ fun _ hb => hb.release _
  | cancelMigration hok =>
    obtain ⟨vm, t, -, -, rfl⟩ := (cancelMigration_eq_ok_iff _ _ _).mp hok
    exact h.hosts.withoutReservation (fun _ v hb => hb.cancel v) _ _
  | updateVmMips hdone =>
    obtain ⟨vm, hv, -, hcases⟩ := (updateVmMips_eq_done_iff _ _ _ _).mp hdone
    rcases hcases with ⟨-, rfl⟩ | ⟨g, host, host', -, hg, hz, rfl⟩
    · exact hall
    · have hdemand : 0 ≤ ({ vm with mips := _ } : Vm K).demand.mips :=
        mul_nonneg (Nat.cast_nonneg _) hop
      exact hall.withHost _ ((h.hosts _ _ hg).step hx (.resize hdemand hz))

theorem mono (h : pool.Overcommitted excess) {more : K} (hle : excess ≤ more) :
    pool.Overcommitted more := ⟨h.nonneg, fun g host hg => (h.hosts g host hg).mono hle⟩

theorem apply (h : pool.Overcommitted excess) (hx : 0 ≤ excess) (hop : op.RatesIn (0 ≤ ·))
    (happly : op.apply pool = .ok pool') :
    pool'.Overcommitted (if op.asksForRoom then excess + Scalar.epsilon else excess) := by
  cases hroom : op.asksForRoom with
  | false =>
    rw [if_neg Bool.false_ne_true]
    have hkeeps : ∀ (op : Op K) (before after : Pool K),
        op.RatesIn (0 ≤ ·) ∧ op.asksForRoom = false → before.Overcommitted excess →
          Change op before after → after.Overcommitted excess := by
      intro op before after hquiet hbefore hc
      have hafter := hbefore.change hx hquiet.1 hc
      rw [hquiet.2, if_neg Bool.false_ne_true] at hafter
      exact hafter
    exact Op.apply_keeps (fun _ => ⟨trivial, rfl⟩) (fun _ => ⟨trivial, rfl⟩) hkeeps ⟨hop, hroom⟩ h
      happly
  | true =>
    -- A request that is refused grants nothing, but counts as one.
    rw [if_pos rfl]
    have hsame : pool.Overcommitted (excess + Scalar.epsilon) :=
      h.mono (le_add_of_nonneg_right Scalar.epsilon_nonneg)
    have hchange : Change op pool pool' → pool'.Overcommitted (excess + Scalar.epsilon) := by
      intro hc
      have hafter := h.change hx hop hc
      rwa [hroom, if_pos rfl] at hafter
    cases op with
    | allocate v g =>
      rcases settle_eq_ok happly with rfl | ⟨after, hdone, rfl⟩
      · exact hsame
      · exact hchange (.allocate hdone)
    | startMigration v t =>
      rcases settle_eq_ok happly with rfl | ⟨after, hdone, rfl⟩
      · exact hsame
      · exact hchange (.startMigration hdone)
    | updateVmMips v mips =>
      rcases settle_eq_ok happly with rfl | ⟨after, hdone, rfl⟩
      · exact hsame
      · exact hchange (.updateVmMips hdone)
    | _ => cases hroom

theorem run {ops : List (Op K)} (h : pool.Overcommitted excess) (hx : 0 ≤ excess)
    (hops : ∀ op ∈ ops, op.RatesIn (0 ≤ ·)) (hrun : pool.run ops = .ok pool') :
    pool'.Overcommitted (excess + ops.countP Op.asksForRoom * Scalar.epsilon) := by
  induction ops generalizing pool excess with
  | nil =>
    cases hrun
    exact h.mono (by simp)
  | cons op ops ih =>
    rw [Pool.run, List.foldlM_cons, Checked.bind_eq_ok_iff] at hrun
    obtain ⟨next, happly, hrest⟩ := hrun
    have hnext := h.apply hx (hops op List.mem_cons_self) happly
    have hlater := fun x hx => hops x (List.mem_cons_of_mem op hx)
    rw [List.countP_cons]
    split at hnext
    · rename_i hroom
      have hlast := ih hnext (add_nonneg hx Scalar.epsilon_nonneg) hlater hrest
      refine hlast.mono (le_of_eq ?_)
      rw [if_pos hroom]
      push_cast
      ring
    · rename_i hroom
      rw [if_neg hroom, Nat.add_zero]
      exact ih hnext hx hlater hrest

end Overcommitted

/-- Without rounding, no host has more than its compute capacity and one tolerance for each time
that room was asked for. The check tolerates it once: it names the first host that has more, and
finds nothing else wrong. -/
theorem overcommitment_le {ops : List (Op K)} {pool : Pool K}
    (hops : ∀ op ∈ ops, op.RatesIn (0 ≤ ·)) (hrun : empty.run ops = .ok pool) :
    (∀ h host, pool.hosts.get? h = some host → ∃ allocated, host.allocated = .ok allocated
      ∧ allocated.mips ≤ host.capacity.mips + ops.countP Op.asksForRoom * Scalar.epsilon)
    ∧ pool.checkConsistency
      = match pool.hosts.values.find? fun host => decide host.Exceeds with
        | none => .done ()
        | some host => .refused (.capacityExceeded host.id) := by
  have hstart : (empty : Pool K).Overcommitted 0 := by
    refine ⟨fun v vm hv => ?_, fun g host hg => ?_⟩
    · rw [empty, Table.get?_emptyCollection] at hv
      cases hv
    · rw [empty, Table.get?_emptyCollection] at hg
      cases hg
  refine ⟨fun h host hh => ?_, (reachable_of_run hrun).checkConsistency_eq⟩
  have hb := (hstart.run le_rfl hops hrun).hosts h host hh
  obtain ⟨allocated, ha, hmips, -⟩ := hb.balanced.allocated
  have hle := hb.le
  rw [zero_add, ← hmips] at hle
  exact ⟨allocated, ha, hle⟩

/-- Each VM of the first host asks for one tolerance more than what is left there. The second host
is not full. -/
def brimfulOps : List (Op ℚ) :=
  let host : HostSpec ℚ := ⟨"host", 1, 1000, 8192, 1000, 100000, .linear 200 (1 / 2)⟩
  let vm (mips : ℚ) : VmSpec ℚ := ⟨"tenant", 1, mips, 1024, 100, 1000⟩
  [.addHost host, .addHost host, .addVm (vm (1000 + 1e-9)), .addVm (vm 1e-9), .addVm (vm 500),
    .allocate 0 0, .allocate 1 0, .allocate 2 1]

/-- The bound is sharp up to the admission of the other host. -/
theorem brimfulOps_overcommitment : ∃ pool host allocated, empty.run brimfulOps = .ok pool
    ∧ pool.hosts.get? 0 = some host ∧ host.allocated = .ok allocated
    ∧ allocated.mips = host.capacity.mips + 2 * Scalar.epsilon
    ∧ allocated.mips ≤ host.capacity.mips + 3 * Scalar.epsilon
    ∧ pool.checkConsistency = .refused (.capacityExceeded 0) := by
  have hrun : (empty.run brimfulOps).toOption.any (fun pool =>
      ((pool.hosts.get? 0).any fun host => host.allocated.toOption.any fun allocated =>
        allocated.mips == host.capacity.mips + 2 * Scalar.epsilon)
      && ((pool.hosts.values.find? fun host => decide host.Exceeds).map (·.id)) == some 0)
      = true := by
    decide +kernel
  obtain ⟨pool, hp, htest⟩ := Checked.eq_ok_of_any hrun
  simp only [Bool.and_eq_true, Option.any_eq_true, beq_iff_eq, Option.map_eq_some_iff] at htest
  obtain ⟨⟨host, hh, test, htest', hmips⟩, first, hfirst, hid⟩ := htest
  have hrates : ∀ op ∈ brimfulOps, op.RatesIn (0 ≤ ·) := by
    simp only [brimfulOps, List.forall_mem_cons, Op.RatesIn]
    norm_num
  obtain ⟨hbound, hcheck⟩ := overcommitment_le hrates hp
  obtain ⟨allocated, ha, hle⟩ := hbound 0 host hh
  rw [ha, Except.toOption, Option.some.injEq] at htest'
  subst htest'
  rw [hfirst] at hcheck
  exact ⟨pool, host, allocated, hp, hh, ha, hmips, hle, hid ▸ hcheck⟩

/-- A host that is full takes two more VMs. -/
def overfullOps : List (Op Float) :=
  let vm (mips : Float) : VmSpec Float := ⟨"tenant", 1, mips, 1024, 100, 1000⟩
  [.addHost ⟨"host", 1, 1000, 8192, 1000, 100000, .linear 200 0.5⟩, .addVm (vm 1000),
    .addVm (vm 9e-10), .addVm (vm 9e-10), .allocate 0 0, .allocate 1 0, .allocate 2 0]

theorem overfullOps_inconsistent : ∃ pool host, empty.run overfullOps = .ok pool
    ∧ (∀ op ∈ overfullOps, op.RatesIn fun mips => 0 ≤ mips ∧ mips.isFinite = true)
    ∧ pool.hosts.get? 0 = some host ∧ host.Exceeds
    ∧ pool.checkConsistency = .refused (.capacityExceeded 0) := by
  have hrun : (empty.run overfullOps).toOption.any (fun pool =>
      ((pool.hosts.get? 0).any fun host => decide host.Exceeds)
        && decide (pool.checkConsistency = .refused (.capacityExceeded 0))) = true := by
    decide +kernel
  obtain ⟨pool, hp, htest⟩ := Checked.eq_ok_of_any hrun
  rw [Bool.and_eq_true, Option.any_eq_true] at htest
  obtain ⟨⟨host, hh, hexceeds⟩, hcheck⟩ := htest
  have hrates : ∀ op ∈ overfullOps,
      op.RatesIn fun mips => 0 ≤ mips ∧ mips.isFinite = true := by
    simp only [overfullOps, List.forall_mem_cons, Op.RatesIn]
    exact ⟨by decide +kernel, by decide +kernel, by decide +kernel, by decide +kernel, trivial,
      trivial, trivial, fun _ h => nomatch h⟩
  exact ⟨pool, host, hp, hrates, hh, of_decide_eq_true hexceeds, of_decide_eq_true hcheck⟩

end Pool

end

end Datacenter
