import Datacenter.Proofs.FloatOrder
import Datacenter.Proofs.Offers
import Datacenter.Proofs.PoolEdits

/-!
# The chosen host

The choice goes through the candidates once and keeps the best host so far. What it keeps is the
first of the cheapest hosts among those that have been seen, so at the end it is the first of the
cheapest of all. The host has room for the VM, as placing the VM there will find again.

Main statements: `scan_spec` and `selects_first_cheapest`.
-/

namespace Datacenter

namespace Selector

variable {α : Type} [Scalar α]

/-- The host does not run the VM, has room for it, and stays below the ceiling with it. -/
structure Eligible (s : Selector α) (pool : Pool α) (v : VmId) (g : HostId) : Prop where
  elsewhere : ∀ vm, pool.vms.get? v = some vm → vm.host ≠ some g
  room : pool.canAllocate v g = .done ()
  below : ∃ ceiling utilization, s.ceiling pool v = .ok ceiling
    ∧ utilizationAfter pool v g = .ok utilization ∧ ¬ceiling + Scalar.epsilon < utilization

/-- No eligible candidate lets the consumption grow by less than the host does, and none that comes
before the host lets it grow by as little. -/
structure FirstCheapest (s : Selector α) (pool : Pool α) (v : VmId) (candidates : List HostId)
    (h : HostId) (growth : α) : Prop where
  eligible : s.Eligible pool v h
  grows : powerIncrease pool v h = .ok growth
  least : ∀ g ∈ candidates, s.Eligible pool v g →
    ∃ x, powerIncrease pool v g = .ok x ∧ ¬x < growth
  first : ∃ before after, candidates = before ++ h :: after ∧ h ∉ before
    ∧ ∀ g ∈ before, s.Eligible pool v g → ∃ x, powerIncrease pool v g = .ok x ∧ ¬x ≤ growth

/-! ### Eligible hosts make offers -/

section

variable {s : Selector α} {pool : Pool α} {v : VmId} {vm : Vm α} {g : HostId} {host : Host α}
  (hr : pool.Reachable) (hv : pool.vms.get? v = some vm) (hh : pool.hosts.get? g = some host)

include hv hh in
theorem powerIncrease_eq {allocated : Resources α} (ha : host.allocated = .ok allocated) :
    powerIncrease pool v g = .ok (growthWith host allocated vm.demand) := by
  rw [powerIncrease, (Pool.host_eq_ok_iff _ _ _).mpr hh, (Pool.vm_eq_ok_iff _ _ _).mpr hv,
    Checked.ok_bind, Checked.ok_bind, ha]
  rfl

include hv hh in
theorem utilizationAfter_eq {allocated : Resources α} (ha : host.allocated = .ok allocated)
    (hfit : ∀ k, allocated.stock k + vm.demand.stock k < UInt64.size) :
    utilizationAfter pool v g = .ok (utilizationOf host allocated vm.demand) := by
  rw [utilizationAfter, (Pool.host_eq_ok_iff _ _ _).mpr hh, (Pool.vm_eq_ok_iff _ _ _).mpr hv,
    Checked.ok_bind, Checked.ok_bind, ha, Checked.ok_bind, utilizationWith_eq_ok hfit]

include hr hv hh

theorem eligible_iff {allocated : Resources α} (ha : host.allocated = .ok allocated) :
    s.Eligible pool v g
      ↔ vm.host ≠ some g ∧ ¬Refuses (s.ceilingOf vm) host allocated vm.demand := by
  have hb := hr.balanced g host hh
  have hroom : pool.canAllocate v g = .done ()
      ↔ (host.capacity.sub allocated).shortage vm.demand = none := by
    rw [Pool.canAllocate_eq_done_iff hv, hh]
    simp [Host.shortage_eq_none_iff, ha]
  rw [Refuses, not_or, not_not]
  constructor
  · rintro ⟨hother, hfits, ceiling, utilization, hceiling, hutilization, hbelow⟩
    have hs := hroom.mp hfits
    rw [ceiling_eq s hv, Except.ok.injEq] at hceiling
    rw [utilizationAfter_eq hv hh ha (fits_of_shortage hb ha hs), Except.ok.injEq] at hutilization
    subst hceiling hutilization
    exact ⟨hother vm hv, hs, hbelow⟩
  · rintro ⟨hother, hs, hbelow⟩
    refine ⟨fun record hrecord => ?_, hroom.mpr hs, _, _, ceiling_eq s hv,
      utilizationAfter_eq hv hh ha (fits_of_shortage hb ha hs), hbelow⟩
    rw [hv, Option.some.injEq] at hrecord
    exact hrecord ▸ hother

/-- A known candidate is the best so far if it is eligible and cheaper than the best before. -/
theorem scan_known_cases {rest : List (Host α)} {best choice : Option HostId} {least : α}
    (h : scan (s.ceilingOf vm) vm vm.demand best least (host :: rest) = .ok choice) :
    (∃ growth, s.Eligible pool v g ∧ powerIncrease pool v g = .ok growth ∧ growth < least
        ∧ scan (s.ceilingOf vm) vm vm.demand (some g) growth rest = .ok choice)
      ∨ (s.Eligible pool v g → ∃ x, powerIncrease pool v g = .ok x ∧ ¬x < least)
        ∧ scan (s.ceilingOf vm) vm vm.demand best least rest = .ok choice := by
  have hb := hr.balanced g host hh
  have hid := (hr.ownership.host_id g host hh).1
  obtain ⟨allocated, ha, -⟩ := hb.allocated
  have heligible := eligible_iff (s := s) hr hv hh ha
  rw [scan_cons best least rest (offer_eq hb ha), hid] at h
  split at h
  · rename_i hheld
    exact .inr ⟨fun he => absurd hheld (heligible.mp he).1, h⟩
  · rename_i hother
    split at h
    · rename_i hnone
      refine .inr ⟨fun he => ?_, h⟩
      rw [if_neg (heligible.mp he).2] at hnone
      cases hnone
    · rename_i growth hsome
      split at hsome
      · cases hsome
      · rename_i hrefuses
        cases hsome
        have hgrowth := powerIncrease_eq hv hh ha
        split at h
        · rename_i hlt
          exact .inl ⟨_, heligible.mpr ⟨hother, hrefuses⟩, hgrowth, hlt, h⟩
        · rename_i hge
          exact .inr ⟨fun _ => ⟨_, hgrowth, hge⟩, h⟩

end

/-! ### The first of the cheapest -/

namespace FirstCheapest

variable [OrderedScalar α] {s : Selector α} {pool : Pool α} {v : VmId} {rest : List HostId}
  {g h : HostId} {growth : α}

theorem head (he : s.Eligible pool v g) (hg : powerIncrease pool v g = .ok growth)
    (hrest : ∀ f ∈ rest, s.Eligible pool v f →
      ∃ x, powerIncrease pool v f = .ok x ∧ ¬x < growth) :
    s.FirstCheapest pool v (g :: rest) g growth where
  eligible := he
  grows := hg
  least := by
    intro f hf hef
    rcases List.mem_cons.mp hf with rfl | hf
    · exact ⟨growth, hg, OrderedScalar.lt_irrefl growth⟩
    · exact hrest f hf hef
  first := ⟨[], rest, rfl, List.not_mem_nil, fun _ hf => absurd hf List.not_mem_nil⟩

/-- A candidate comes before that is not below a bound, while the host is. -/
theorem cons (hc : s.FirstCheapest pool v rest h growth) {bound : α} (hlt : growth < bound)
    (hg : s.Eligible pool v g → ∃ x, powerIncrease pool v g = .ok x ∧ ¬x < bound) :
    s.FirstCheapest pool v (g :: rest) h growth := by
  obtain ⟨before, after, rfl, hnew, hbefore⟩ := hc.first
  have hne : h ≠ g := by
    rintro rfl
    obtain ⟨x, hx, hge⟩ := hg hc.eligible
    rw [hc.grows, Except.ok.injEq] at hx
    exact hge (hx ▸ hlt)
  refine ⟨hc.eligible, hc.grows, fun f hf hef => ?_,
    g :: before, after, rfl, by simp [hne, hnew], fun f hf hef => ?_⟩
  · rcases List.mem_cons.mp hf with rfl | hf
    · obtain ⟨x, hx, hge⟩ := hg hef
      exact ⟨x, hx, fun hless => hge (OrderedScalar.lt_trans hless hlt)⟩
    · exact hc.least f hf hef
  · rcases List.mem_cons.mp hf with rfl | hf
    · obtain ⟨x, hx, hge⟩ := hg hef
      exact ⟨x, hx, fun hle => hge (OrderedScalar.lt_of_le_of_lt hle hlt)⟩
    · exact hbefore f hf hef

end FirstCheapest

section

variable [OrderedScalar α] {s : Selector α} {pool : Pool α} {v : VmId} {vm : Vm α}

/-- Either the best host so far is kept, as no candidate beats it, or the first of the cheapest
candidates takes its place. -/
theorem scan_spec (hr : pool.Reachable) (hv : pool.vms.get? v = some vm) {candidates : List HostId}
    {best choice : Option HostId} {least : α}
    (h : scan (s.ceilingOf vm) vm vm.demand best least (candidates.filterMap pool.hosts.get?)
      = .ok choice) :
    choice = best ∧ (∀ g ∈ candidates, s.Eligible pool v g →
        ∃ x, powerIncrease pool v g = .ok x ∧ ¬x < least)
      ∨ ∃ found growth, choice = some found ∧ growth < least
        ∧ s.FirstCheapest pool v candidates found growth := by
  induction candidates generalizing best least with
  | nil =>
    rw [List.filterMap_nil, scan, Except.ok.injEq] at h
    exact .inl ⟨h.symm, fun g hg => absurd hg List.not_mem_nil⟩
  | cons g rest ih =>
    have hstep : (∃ growth, s.Eligible pool v g ∧ powerIncrease pool v g = .ok growth
          ∧ growth < least
          ∧ scan (s.ceilingOf vm) vm vm.demand (some g) growth (rest.filterMap pool.hosts.get?)
            = .ok choice)
        ∨ (s.Eligible pool v g → ∃ x, powerIncrease pool v g = .ok x ∧ ¬x < least)
          ∧ scan (s.ceilingOf vm) vm vm.demand best least (rest.filterMap pool.hosts.get?)
            = .ok choice := by
      cases hh : pool.hosts.get? g with
      | some host =>
        rw [List.filterMap_cons_some hh] at h
        exact scan_known_cases hr hv hh h
      | none =>
        rw [List.filterMap_cons_none hh] at h
        refine .inr ⟨fun he => ?_, h⟩
        obtain ⟨host, hhost, -⟩ := (Pool.canAllocate_eq_done_iff hv).mp he.room
        rw [hh] at hhost
        cases hhost
    rcases hstep with ⟨growth, he, hg, hlt, hscan⟩ | ⟨hg, hscan⟩
    · refine .inr ?_
      rcases ih hscan with ⟨rfl, hrest⟩ | ⟨found, growth', rfl, hlt', hfound⟩
      · exact ⟨g, growth, rfl, hlt, .head he hg hrest⟩
      · exact ⟨found, growth', rfl, OrderedScalar.lt_trans hlt' hlt,
          hfound.cons hlt' fun _ => ⟨growth, hg, OrderedScalar.lt_irrefl growth⟩⟩
    · rcases ih hscan with ⟨rfl, hrest⟩ | ⟨found, growth', rfl, hlt', hfound⟩
      · exact .inl ⟨rfl, List.forall_mem_cons.mpr ⟨hg, hrest⟩⟩
      · exact .inr ⟨found, growth', rfl, hlt', hfound.cons hlt' hg⟩

end

end Selector

/-! ### Placing the VM -/

namespace AllocationPolicy

variable {α π : Type} [Scalar α] [AllocationPolicy α π]

/-- Places a VM by writing to the pool. -/
def placing (policy : π) (v : VmId) : Edit (Pool α) PlacementError HostId := do
  let pool ← Edit.read
  if !pool.vms.contains v then Edit.answer (.refused (.vmNotFound v))
  else do
    let selected ← selectHost policy pool v
    let h ← Edit.ofOption (.noSuitableHost v) selected
    (Pool.allocating v h).mapRefusal (.rejected v h)
    return h

theorem placing_performs (policy : π) {pool : Pool α} (hr : pool.Reachable) {v : VmId}
    {choice : Option HostId} (hchoice : selectHost policy pool v = .ok choice) :
    (placing policy v).Performs pool (place policy pool v) := by
  rw [placing, Edit.performs_read_bind, place]
  cases hknown : pool.vms.contains v with
  | false => simp
  | true =>
    cases choice with
    | none => simp [Edit.Performs, hchoice, Edit.ofOption, Outcome.ofOption, Outcome.lift_eq]
    | some h =>
      have hallocating := hr.allocating_performs v h
      cases hallocate : pool.allocate v h with
      | done pool' =>
        rw [hallocate] at hallocating
        have hrun : (Pool.allocating v h).run ⟨pool, []⟩ = (.done (), ⟨pool', []⟩) := hallocating
        simp [Edit.Performs, hchoice, hallocate, hrun, Edit.mapRefusal, Outcome.mapRefusal,
          Outcome.ofOption, Outcome.lift_eq]
      | refused reason =>
        rw [hallocate] at hallocating
        have hrun : (Pool.allocating v h).run ⟨pool, []⟩ = (.refused reason, ⟨pool, []⟩) :=
          hallocating
        simp [Edit.Performs, hchoice, hallocate, hrun, Edit.mapRefusal, Outcome.mapRefusal,
          Outcome.ofOption, Outcome.lift_eq]
      | fault e => exact absurd hallocate (Pool.allocate_isSettled hr.balanced v h e)

end AllocationPolicy

namespace SingleThreshold

variable {α : Type} [Scalar α] {policy : SingleThreshold α} {pool : Pool α} {v : VmId} {vm : Vm α}

/-- A VM that runs nowhere is only refused if the policy finds no host for it. -/
theorem selectHost_of_refused {error : PlacementError} (hr : pool.Reachable)
    (hv : pool.vms.get? v = some vm) (hidle : vm.host = none)
    (h : AllocationPolicy.place policy pool v = .refused error) :
    policy.selectHost pool v = .ok none := by
  obtain ⟨choice, hchoice⟩ := Selector.selectAmong_answers ⟨policy.thresholds.upper⟩ pool v
    (Selector.balanced_of_mem_values hr)
  have hselect : policy.selectHost pool v = .ok choice := hchoice
  cases choice with
  | none => exact hselect
  | some host =>
    obtain ⟨record, hhost, -, hroom⟩ := Selector.room_of_selectAmong hr hv hchoice
    obtain ⟨pool', hdone⟩ := hr.allocate_of_room hv hidle hhost hroom
    have hknown : pool.vms.contains v = true := by simp [Table.contains, hv]
    have hclass : AllocationPolicy.selectHost policy pool v = .ok (some host) := hselect
    rw [AllocationPolicy.place, hknown] at h
    simp only [hclass, Outcome.lift_eq, Outcome.ofChecked_ok, Outcome.done_bind, Outcome.ofOption,
      hdone, Outcome.mapRefusal, Outcome.pure_eq, Bool.not_true, Bool.false_eq_true, if_false] at h
    cases h

/-- The host that it is sent to does not reject it. -/
theorem place_ne_rejected (policy : SingleThreshold α) (hr : pool.Reachable)
    (hv : pool.vms.get? v = some vm) (hidle : vm.host = none) (h : HostId) (reason : Refusal) :
    AllocationPolicy.place policy pool v ≠ .refused (.rejected v h reason) := by
  intro hrejected
  have hnone : AllocationPolicy.selectHost policy pool v = .ok none :=
    selectHost_of_refused hr hv hidle hrejected
  have hknown : pool.vms.contains v = true := by simp [Table.contains, hv]
  simp [AllocationPolicy.place, hknown, hnone, Outcome.ofOption, Outcome.lift_eq] at hrejected

end SingleThreshold

/-- The choice among any candidates, unknown and repeated ones included, is the first of the
cheapest eligible ones, or none if none is cheaper than the largest number. The VM can be placed
there if it runs nowhere, so the policy that chooses like this is not rejected. Whatever policy
places a VM, the pool stays as it is if that fails. -/
theorem selects_first_cheapest {α : Type} [Scalar α] [OrderedScalar α] (s : Selector α)
    {pool : Pool α} (hr : pool.Reachable) {v : VmId} {vm : Vm α} (hv : pool.vms.get? v = some vm)
    (candidates : List HostId) :
    ∃ choice, s.selectHost pool v candidates = .ok choice
      ∧ (∀ h, choice = some h → ∃ growth, growth < Scalar.largest
        ∧ s.FirstCheapest pool v candidates h growth)
      ∧ (choice = none → ∀ g ∈ candidates, s.Eligible pool v g →
        ∃ x, Selector.powerIncrease pool v g = .ok x ∧ ¬x < Scalar.largest)
      ∧ (vm.host = none → ∀ h, choice = some h → ∃ pool', pool.allocate v h = .done pool')
      ∧ (∀ policy : SingleThreshold α, vm.host = none → ∀ h reason,
        AllocationPolicy.place policy pool v ≠ .refused (.rejected v h reason))
      ∧ ∀ {π : Type} [AllocationPolicy α π] (policy : π) (w : VmId) (selected : Option HostId),
        AllocationPolicy.selectHost policy pool w = .ok selected →
        (AllocationPolicy.placing policy w).Performs pool
          (AllocationPolicy.place policy pool w) := by
  obtain ⟨choice, hchoice⟩ := s.selectHost_answers hr v candidates
  have hscan := hchoice
  rw [Selector.selectHost, Selector.selectAmong_eq s hv] at hscan
  have hspec := Selector.scan_spec hr hv hscan
  refine ⟨choice, hchoice, ?_, ?_, fun hidle h hh => ?_,
    fun policy hidle => policy.place_ne_rejected hr hv hidle,
    fun policy w selected => AllocationPolicy.placing_performs policy hr⟩
  · rintro h rfl
    rcases hspec with ⟨hnone, -⟩ | ⟨found, growth, hfound, hlt, hfirst⟩
    · cases hnone
    · cases hfound
      exact ⟨growth, hlt, hfirst⟩
  · rintro rfl
    rcases hspec with ⟨-, hrest⟩ | ⟨found, growth, hfound, -⟩
    · exact hrest
    · cases hfound
  · rcases hspec with ⟨hnone, -⟩ | ⟨found, growth, hfound, -, hfirst⟩
    · rw [hh] at hnone
      cases hnone
    · rw [hh, Option.some.injEq] at hfound
      obtain ⟨host, hhost, hroom⟩ :=
        (Pool.canAllocate_eq_done_iff hv).mp (hfound ▸ hfirst.eligible.room)
      exact hr.allocate_of_room hv hidle hhost hroom

/-- Two equal hosts, one that consumes more, and one whose consumption is no number. -/
def tiedRun : List (Pool.Op Float) :=
  let host (power : Float) : HostSpec Float :=
    ⟨"host", 4, 1000, 8192, 1000, 100000, .linear power 0.5⟩
  [.addHost (host 300), .addHost (host 200), .addHost (host 200), .addHost (host (0 / 0)),
    .addVm ⟨"tenant", 2, 500, 1024, 100, 1000⟩]

theorem tiedRun_selection : ∃ pool : Pool Float, Pool.empty.run tiedRun = .ok pool
    ∧ pool.Reachable ∧ Selector.selectHost ⟨0.8⟩ pool 0 [9, 3, 0, 2, 1, 2] = .ok (some 2)
    ∧ (∃ growth, Selector.FirstCheapest ⟨0.8⟩ pool 0 [9, 3, 0, 2, 1, 2] 2 growth)
    ∧ (∃ pool', pool.allocate 0 2 = .done pool')
    ∧ ∀ (policy : SingleThreshold Float) h reason,
      AllocationPolicy.place policy pool 0 ≠ .refused (.rejected 0 h reason) := by
  have hrun : (Pool.empty.run tiedRun).toOption.any (fun pool =>
      (pool.vms.get? 0).any (·.host.isNone)
        && decide (Selector.selectHost ⟨0.8⟩ pool 0 [9, 3, 0, 2, 1, 2] = .ok (some 2))) = true := by
    decide +kernel
  obtain ⟨pool, hp, htest⟩ := Checked.eq_ok_of_any hrun
  have hr := Pool.reachable_of_run hp
  simp only [Bool.and_eq_true, decide_eq_true_eq, Option.any_eq_true, Option.isNone_iff_eq_none]
    at htest
  obtain ⟨⟨vm, hv, hidle⟩, hselect⟩ := htest
  obtain ⟨choice, hchoice, hfirst, -, hallocate, hplace, -⟩ :=
    selects_first_cheapest ⟨0.8⟩ hr hv [9, 3, 0, 2, 1, 2]
  rw [hselect, Except.ok.injEq] at hchoice
  obtain ⟨growth, -, hcheapest⟩ := hfirst 2 hchoice.symm
  exact ⟨pool, hp, hr, hselect, ⟨growth, hcheapest⟩, hallocate hidle 2 hchoice.symm,
    fun policy => hplace policy hidle⟩

end Datacenter
