import Datacenter.Policy.Scripted
import Datacenter.Policy.SingleThreshold
import Datacenter.Proofs.Capacity

/-!
# Offers of hosts

A host makes an offer for a demand if it has room for it and would stay below the ceiling. It is
asked whether it has room first, so the sums that follow fit into words. The choice among balanced
hosts is always answered: with one that makes an offer, or with none if no host does. So policies
that choose like this can always place a VM or refuse it.

Main statements: `offer_eq`, `scan_eq_none_iff`, `offer_of_scan`, `selectHost_answers` and
`AllocationPolicy.place_isSettled`.
-/

namespace Datacenter

namespace Selector

variable {α : Type} [Scalar α] {host : Host α} {allocated demand : Resources α} {ceiling : α}

/-- The utilization of the host where words add up. -/
def utilizationOf (host : Host α) (allocated demand : Resources α) : α :=
  let ratio (k : Stock) : α :=
    Scalar.ofNat (allocated.stock k + demand.stock k) / Scalar.ofNat (host.capacity.stock k)
  Scalar.larger
    (Scalar.larger ((allocated.mips + demand.mips) / host.totalMips) (ratio .memory))
    (if 0 < host.bandwidth then ratio .bandwidth else 0)

theorem utilizationWith_eq_ok (hfit : ∀ k, allocated.stock k + demand.stock k < UInt64.size) :
    utilizationWith host allocated demand = .ok (utilizationOf host allocated demand) := by
  obtain ⟨ram, hram, hmemory⟩ := addWords_eq_ok (hfit .memory)
  obtain ⟨bandwidth, hbandwidth, hwidth⟩ := addWords_eq_ok (hfit .bandwidth)
  rw [utilizationWith, utilizationOf, hram, Checked.ok_bind, hmemory]
  split
  · rw [hbandwidth, Checked.ok_bind, hwidth]
    rfl
  · rfl

/-! ### One host -/

/-- The host may not take the demand besides what is allocated: something is short, or it would
exceed the ceiling. -/
def Refuses (ceiling : α) (host : Host α) (allocated demand : Resources α) : Prop :=
  (host.capacity.sub allocated).shortage demand ≠ none
    ∨ ceiling + Scalar.epsilon < utilizationOf host allocated demand

instance (ceiling : α) (host : Host α) (allocated demand : Resources α) :
    Decidable (Refuses ceiling host allocated demand) :=
  inferInstanceAs (Decidable (_ ∨ _))

/-- What is not short fits into words together with what is allocated. -/
theorem fits_of_shortage (h : host.Balanced) (ha : host.allocated = .ok allocated)
    (hs : (host.capacity.sub allocated).shortage demand = none) (k : Stock) :
    allocated.stock k + demand.stock k < UInt64.size := by
  have hroom := h.room ((Host.shortage_eq_none_iff host demand).mpr ⟨allocated, ha, hs⟩) k
  have hsum := ((Resources.add_eq_ok_iff _ _ _).mp ha).2 k
  have hlt := host.capacity.stock_lt k
  omega

/-- A balanced host answers. -/
theorem offer_eq (h : host.Balanced) (ha : host.allocated = .ok allocated) :
    offer ceiling host demand
      = .ok (if Refuses ceiling host allocated demand then none
          else some (growthWith host allocated demand)) := by
  rw [offer, ha, Checked.ok_bind]
  cases hs : (host.capacity.sub allocated).shortage demand with
  | some d =>
    have hrefuses : Refuses ceiling host allocated demand := .inl (by simp [hs])
    rw [if_pos hrefuses]
    rfl
  | none =>
    have hfit := fits_of_shortage h ha hs
    have hiff : Refuses ceiling host allocated demand
        ↔ ceiling + Scalar.epsilon < utilizationOf host allocated demand := by
      simp [Refuses, hs]
    simp only [utilizationWith_eq_ok hfit, Checked.ok_bind, Option.isSome_none, Bool.false_eq_true,
      if_false, hiff]
    split
    · rfl
    · rfl

theorem offer_eq_ok (h : host.Balanced) (ceiling : α) (demand : Resources α) :
    ∃ answer, offer ceiling host demand = .ok answer := by
  obtain ⟨allocated, ha, -⟩ := h.allocated
  exact ⟨_, offer_eq h ha⟩

theorem offer_eq_none_iff (h : host.Balanced) (ha : host.allocated = .ok allocated) :
    offer ceiling host demand = .ok none ↔ Refuses ceiling host allocated demand := by
  rw [offer_eq h ha, Except.ok.injEq]
  split
  · rename_i hr
    simp [hr]
  · rename_i hr
    simp [hr]

theorem offer_eq_some {growth : α} (h : host.Balanced)
    (ho : offer ceiling host demand = .ok (some growth)) :
    host.shortage demand = .ok none
      ∧ ∃ allocated, host.allocated = .ok allocated
        ∧ growth = growthWith host allocated demand := by
  obtain ⟨allocated, ha, -⟩ := h.allocated
  rw [offer_eq h ha, Except.ok.injEq] at ho
  split at ho
  · cases ho
  · rename_i hr
    simp only [Refuses, not_or, not_not] at hr
    cases ho
    exact ⟨(Host.shortage_eq_none_iff host demand).mpr ⟨allocated, ha, hr.1⟩, allocated, ha, rfl⟩

/-! ### The choice -/

variable {vm : Vm α} {hosts : List (Host α)}

theorem scan_cons (best : Option HostId) (least : α) (rest : List (Host α))
    {answer : Option α} : offer ceiling host demand = .ok answer →
    scan ceiling vm demand best least (host :: rest)
      = if vm.host = some host.id then scan ceiling vm demand best least rest
        else match answer with
          | none => scan ceiling vm demand best least rest
          | some growth =>
            if growth < least then scan ceiling vm demand (some host.id) growth rest
            else scan ceiling vm demand best least rest := by
  intro ho
  rw [scan, ho]
  cases answer with
  | none => rfl
  | some growth => rfl

theorem scan_eq_ok (hb : ∀ host ∈ hosts, host.Balanced) (ceiling : α) (vm : Vm α)
    (demand : Resources α) (best : Option HostId) (least : α) :
    ∃ choice, scan ceiling vm demand best least hosts = .ok choice := by
  induction hosts generalizing best least with
  | nil => exact ⟨best, rfl⟩
  | cons host rest ih =>
    obtain ⟨answer, ho⟩ := offer_eq_ok (hb host List.mem_cons_self) ceiling demand
    have hrest := ih fun other hother => hb other (List.mem_cons_of_mem host hother)
    rw [scan_cons best least rest ho]
    split
    · exact hrest best least
    · cases answer with
      | none => exact hrest best least
      | some growth =>
        dsimp only
        split
        · exact hrest (some host.id) growth
        · exact hrest best least

/-- A host that has been found is replaced by a better one at most. -/
theorem scan_of_found (hb : ∀ host ∈ hosts, host.Balanced) (found : HostId) (least : α) :
    scan ceiling vm demand (some found) least hosts ≠ .ok none := by
  induction hosts generalizing found least with
  | nil => simp [scan]
  | cons host rest ih =>
    obtain ⟨answer, ho⟩ := offer_eq_ok (hb host List.mem_cons_self) ceiling demand
    have hrest := ih fun other hother => hb other (List.mem_cons_of_mem host hother)
    rw [scan_cons _ least rest ho]
    split
    · exact hrest found least
    · cases answer with
      | none => exact hrest found least
      | some growth =>
        dsimp only
        split
        · exact hrest host.id growth
        · exact hrest found least

/-- As long as growths stay below the least one so far, no host is chosen exactly if none makes an
offer. -/
theorem scan_eq_none_iff (hb : ∀ host ∈ hosts, host.Balanced) {least : α}
    (hgrowth : ∀ host ∈ hosts, ∀ allocated, growthWith host allocated demand < least) :
    scan ceiling vm demand none least hosts = .ok none
      ↔ ∀ host ∈ hosts, vm.host ≠ some host.id → offer ceiling host demand = .ok none := by
  induction hosts with
  | nil => simp [scan]
  | cons host rest ih =>
    have hbalanced := hb host List.mem_cons_self
    have hlater : ∀ other ∈ rest, other.Balanced :=
      fun other hother => hb other (List.mem_cons_of_mem host hother)
    have hrest := ih hlater fun other hother =>
      hgrowth other (List.mem_cons_of_mem host hother)
    obtain ⟨answer, ho⟩ := offer_eq_ok hbalanced ceiling demand
    rw [scan_cons none least rest ho, List.forall_mem_cons]
    split
    · rename_i hheld
      rw [hrest]
      simp [hheld]
    · rename_i hother
      cases answer with
      | none =>
        dsimp only
        rw [hrest]
        simp [ho]
      | some growth =>
        obtain ⟨-, allocated, -, rfl⟩ := offer_eq_some hbalanced ho
        dsimp only
        rw [if_pos (hgrowth host List.mem_cons_self allocated)]
        simp [ho, hother, scan_of_found hlater]

/-- The chosen host makes an offer, unless it was found before. -/
theorem offer_of_scan (hb : ∀ host ∈ hosts, host.Balanced) {best : Option HostId} {least : α}
    {h : HostId} (hs : scan ceiling vm demand best least hosts = .ok (some h)) :
    best = some h ∨ ∃ host ∈ hosts, host.id = h ∧ vm.host ≠ some h
      ∧ ∃ growth, offer ceiling host demand = .ok (some growth) := by
  induction hosts generalizing best least with
  | nil =>
    rw [scan, Except.ok.injEq] at hs
    exact .inl hs
  | cons host rest ih =>
    obtain ⟨answer, ho⟩ := offer_eq_ok (hb host List.mem_cons_self) ceiling demand
    have hlater : ∀ other ∈ rest, other.Balanced :=
      fun other hother => hb other (List.mem_cons_of_mem host hother)
    have hrest : ∀ {best least}, scan ceiling vm demand best least rest = .ok (some h) →
        best = some h ∨ ∃ other ∈ host :: rest, other.id = h ∧ vm.host ≠ some h
          ∧ ∃ growth, offer ceiling other demand = .ok (some growth) := by
      intro best least hscan
      refine (ih hlater hscan).imp_right fun hfound => ?_
      obtain ⟨other, hother, hoffers⟩ := hfound
      exact ⟨other, List.mem_cons_of_mem host hother, hoffers⟩
    rw [scan_cons best least rest ho] at hs
    split at hs
    · exact hrest hs
    · rename_i hother
      cases answer with
      | none => exact hrest hs
      | some growth =>
        dsimp only at hs
        split at hs
        · rcases hrest hs with hfound | hfound
          · rw [Option.some.injEq] at hfound
            subst hfound
            exact .inr ⟨host, List.mem_cons_self, rfl, hother, growth, ho⟩
          · exact .inr hfound
        · exact hrest hs

/-! ### Pools -/

variable {pool : Pool α} {v : VmId}

/-- The utilization up to which a host takes the VM with this record. -/
def ceilingOf (s : Selector α) (vm : Vm α) : α :=
  if vm.beingInstantiated then 1 else s.upperThreshold

theorem ceiling_eq (s : Selector α) (hv : pool.vms.get? v = some vm) :
    s.ceiling pool v = .ok (s.ceilingOf vm) := by
  rw [Selector.ceiling, (Pool.vm_eq_ok_iff pool v vm).mpr hv]
  rfl

theorem selectAmong_eq (s : Selector α) (hv : pool.vms.get? v = some vm)
    (hosts : List (Host α)) :
    s.selectAmong pool v hosts
      = scan (s.ceilingOf vm) vm vm.demand none Scalar.largest hosts := by
  rw [selectAmong, hv]
  dsimp only
  rw [ceiling_eq s hv]
  rfl

/-- Whatever VM and balanced hosts are given, the choice is answered. -/
theorem selectAmong_answers (s : Selector α) (pool : Pool α) (v : VmId)
    (hb : ∀ host ∈ hosts, host.Balanced) : ∃ choice, s.selectAmong pool v hosts = .ok choice := by
  cases hv : pool.vms.get? v with
  | none => exact ⟨none, by rw [selectAmong, hv]⟩
  | some vm =>
    rw [selectAmong_eq s hv]
    exact scan_eq_ok hb _ vm vm.demand none Scalar.largest

theorem balanced_of_mem_values (hr : pool.Reachable) :
    ∀ host ∈ pool.hosts.values, host.Balanced := by
  intro host hhost
  obtain ⟨h, hh⟩ := (Table.mem_values_iff _ _).mp hhost
  exact hr.balanced h host hh

/-- A VM that runs nowhere finds no host exactly if no host of the pool makes an offer. -/
theorem selectAmong_eq_none_iff (s : Selector α) (hr : pool.Reachable)
    (hv : pool.vms.get? v = some vm) (hidle : vm.host = none)
    (hgrowth : pool.AllHosts fun host =>
      ∀ allocated, growthWith host allocated vm.demand < Scalar.largest) :
    s.selectAmong pool v pool.hosts.values = .ok none
      ↔ pool.AllHosts fun host => offer (s.ceilingOf vm) host vm.demand = .ok none := by
  have hbelow : ∀ host ∈ pool.hosts.values,
      ∀ allocated, growthWith host allocated vm.demand < Scalar.largest := by
    intro host hhost
    obtain ⟨h, hh⟩ := (Table.mem_values_iff _ _).mp hhost
    exact hgrowth h host hh
  rw [selectAmong_eq s hv, scan_eq_none_iff (balanced_of_mem_values hr) hbelow]
  constructor
  · intro hnone h host hh
    exact hnone host ((Table.mem_values_iff _ _).mpr ⟨h, hh⟩) (by simp [hidle])
  · intro hnone host hhost _
    obtain ⟨h, hh⟩ := (Table.mem_values_iff _ _).mp hhost
    exact hnone h host hh

/-- The chosen host is known, and has room for the VM. -/
theorem room_of_selectAmong {s : Selector α} (hr : pool.Reachable)
    (hv : pool.vms.get? v = some vm) {h : HostId}
    (hs : s.selectAmong pool v pool.hosts.values = .ok (some h)) :
    ∃ host, pool.hosts.get? h = some host ∧ vm.host ≠ some h
      ∧ host.shortage vm.demand = .ok none := by
  rw [selectAmong_eq s hv] at hs
  rcases offer_of_scan (balanced_of_mem_values hr) hs with hnone | ⟨host, hhost, hid, hne, g, ho⟩
  · cases hnone
  · obtain ⟨key, hh⟩ := (Table.mem_values_iff _ _).mp hhost
    have hkey := (hr.ownership.host_id key host hh).1
    have hsame : key = h := hkey.symm.trans hid
    exact ⟨host, hsame ▸ hh, hne, (offer_eq_some (hr.balanced key host hh) ho).1⟩

/-- Any list of hosts may be given, unknown ones among them. -/
theorem selectHost_answers (s : Selector α) (hr : pool.Reachable) (v : VmId)
    (candidates : List HostId) : ∃ choice, s.selectHost pool v candidates = .ok choice := by
  refine selectAmong_answers s pool v fun host hhost => ?_
  obtain ⟨h, -, hh⟩ := List.mem_filterMap.mp hhost
  exact hr.balanced h host hh

end Selector

/-! ### Policies that answer -/

/-- The policy answers where a VM is to run, on every pool that operations lead to. -/
class AlwaysSelects (α : outParam Type) (π : Type) [Scalar α] [AllocationPolicy α π] : Prop where
  selectHost_eq_ok : ∀ (policy : π) {pool : Pool α}, pool.Reachable → ∀ v : VmId,
    ∃ choice, AllocationPolicy.selectHost policy pool v = .ok choice

instance {α : Type} [Scalar α] : AlwaysSelects α (SingleThreshold α) where
  selectHost_eq_ok policy _ hr v := Selector.selectAmong_answers ⟨policy.thresholds.upper⟩ _ v
    (Selector.balanced_of_mem_values hr)

instance {α : Type} [Scalar α] : AlwaysSelects α (Scripted α) where
  selectHost_eq_ok policy _ _ v := ⟨policy.choices.lookup v, rfl⟩

section

variable {α π : Type} [Scalar α] [AllocationPolicy α π]

/-- Placing a VM by such a policy is no fault. -/
theorem AllocationPolicy.place_isSettled [AlwaysSelects α π] (policy : π) {pool : Pool α}
    (hr : pool.Reachable) (v : VmId) : (AllocationPolicy.place policy pool v).IsSettled := by
  rw [AllocationPolicy.place]
  split
  · exact Outcome.isSettled_refused _
  · obtain ⟨choice, hchoice⟩ := AlwaysSelects.selectHost_eq_ok policy hr v
    rw [hchoice, Outcome.lift_eq, Outcome.ofChecked_ok, Outcome.done_bind]
    cases choice with
    | none => exact Outcome.isSettled_refused _
    | some h =>
      rw [Outcome.ofOption, Outcome.done_bind]
      have hsettled := Pool.allocate_isSettled hr.balanced v h
      cases hallocate : pool.allocate v h with
      | done pool' => exact Outcome.isSettled_done _
      | refused reason => exact Outcome.isSettled_refused _
      | fault e => exact absurd hallocate (hsettled e)

end

end Datacenter
