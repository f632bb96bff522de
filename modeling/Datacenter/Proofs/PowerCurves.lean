import Mathlib.Analysis.Real.Sqrt
import Datacenter.Power.Registry
import Datacenter.Proofs.Selection

/-!
# Power curves

Over exact numbers the consumption grows with the utilization, from the static power at no load to
the maximum at full load, and a host consumes no less with one more VM. This rests on the curve
alone: it leads from 0 to 1 and never falls in between.

Main statements: `UnitCurve.monotone_draw`, `growthWith_nonneg` and `built_in_curves_rise`.
-/

namespace Datacenter

/-- Real numbers, up to the largest finite one of 64 bits. -/
noncomputable instance : ExactScalar ℝ where
  root := Real.sqrt
  largest := (2 ^ 53 - 1) * 2 ^ 971
  natCeil := Nat.ceil

/-! ### Curves on the unit interval -/

section

variable {K : Type} [ExactScalar K]

/-- A curve that leads from 0 to 1 on the unit interval, and does not fall there. -/
structure UnitCurve (curve : K → K) : Prop where
  zero : curve 0 = 0
  one : curve 1 = 1
  mono : ∀ {x y}, 0 ≤ x → x ≤ y → y ≤ 1 → curve x ≤ curve y

theorem unitCurve_linear : UnitCurve fun u : K => u where
  zero := rfl
  one := rfl
  mono _ h _ := h

theorem unitCurve_square : UnitCurve fun u : K => u * u where
  zero := by simp
  one := by simp
  mono hx h _ := mul_le_mul h h hx (hx.trans h)

theorem unitCurve_cubic : UnitCurve fun u : K => u * (u * u) where
  zero := by simp
  one := by simp
  mono hx h _ := mul_le_mul h (mul_le_mul h h hx (hx.trans h)) (mul_nonneg hx hx) (hx.trans h)

/-! ### Models of a curve -/

namespace UnitCurve

variable {curve : K → K} {maxPower fraction : K}

theorem draw_of_nonpos (hc : UnitCurve curve) {u : K} (h : u ≤ 0) :
    (PowerModel.ofCurve curve maxPower fraction).draw u
      = (PowerModel.ofCurve curve maxPower fraction).staticPower := by
  simp [PowerModel.ofCurve, Scalar.clampUnit_of_nonpos h, hc.zero]

theorem draw_of_one_le (hc : UnitCurve curve) {u : K} (h : 1 ≤ u) :
    (PowerModel.ofCurve curve maxPower fraction).draw u = maxPower := by
  simp [PowerModel.ofCurve, Scalar.clampUnit_of_one_le h, hc.one]

theorem monotone_draw (hc : UnitCurve curve) (hmax : 0 ≤ maxPower) (hfraction : fraction ≤ 1) :
    Monotone (PowerModel.ofCurve curve maxPower fraction).draw := by
  intro u w huw
  have hcurve : curve (Scalar.clampUnit u) ≤ curve (Scalar.clampUnit w) :=
    hc.mono (Scalar.clampUnit_nonneg u) (Scalar.clampUnit_mono huw) (Scalar.clampUnit_le_one w)
  have hdynamic : 0 ≤ maxPower - maxPower * fraction := by
    have h := mul_le_mul_of_nonneg_left hfraction hmax
    linarith
  show maxPower * fraction + (maxPower - maxPower * fraction) * curve (Scalar.clampUnit u)
    ≤ maxPower * fraction + (maxPower - maxPower * fraction) * curve (Scalar.clampUnit w)
  have h := mul_le_mul_of_nonneg_left hcurve hdynamic
  linarith

/-- The ends of the curve bound what is in between. -/
theorem draw_between (hc : UnitCurve curve) (hmax : 0 ≤ maxPower) (hfraction : fraction ≤ 1)
    (u : K) :
    (PowerModel.ofCurve curve maxPower fraction).staticPower
        ≤ (PowerModel.ofCurve curve maxPower fraction).draw u
      ∧ (PowerModel.ofCurve curve maxPower fraction).draw u ≤ maxPower := by
  have hmono := hc.monotone_draw hmax hfraction
  constructor
  · rw [← hc.draw_of_nonpos (min_le_right u 0)]
    exact hmono (min_le_left u 0)
  · have hfull : (PowerModel.ofCurve curve maxPower fraction).draw (max u 1) = maxPower :=
      hc.draw_of_one_le (le_max_right u 1)
    exact (hmono (le_max_left u 1)).trans_eq hfull

end UnitCurve

/-! ### One more VM -/

/-- A host whose consumption rises with its utilization consumes no less with one more VM. -/
theorem growthWith_nonneg {host : Host K} {allocated demand : Resources K}
    (hmono : Monotone host.powerModel.draw) (hnonneg : ∀ u, 0 ≤ host.powerModel.draw u)
    (htotal : 0 < host.totalMips) (hdemand : 0 ≤ demand.mips) :
    0 ≤ Selector.growthWith host allocated demand := by
  unfold Selector.growthWith
  by_cases hidle : host.isIdle = true
  · simp only [hidle, if_true, sub_zero]
    exact hnonneg _
  · simp only [hidle, Bool.false_eq_true, if_false, sub_nonneg]
    apply hmono
    apply div_le_div_of_nonneg_right _ htotal.le
    linarith

theorem powerIncrease_nonneg {pool : Pool K} {v : VmId} {vm : Vm K} {g : HostId} {host : Host K}
    {growth : K} (hv : pool.vms.get? v = some vm) (hh : pool.hosts.get? g = some host)
    (hmono : Monotone host.powerModel.draw) (hnonneg : ∀ u, 0 ≤ host.powerModel.draw u)
    (htotal : 0 < host.totalMips) (hdemand : 0 ≤ vm.demand.mips)
    (h : Selector.powerIncrease pool v g = .ok growth) : 0 ≤ growth := by
  simp only [Selector.powerIncrease, (Pool.host_eq_ok_iff _ _ _).mpr hh,
    (Pool.vm_eq_ok_iff _ _ _).mpr hv, Checked.ok_bind, Checked.bind_eq_ok_iff] at h
  obtain ⟨allocated, -, hgrowth⟩ := h
  cases hgrowth
  exact growthWith_nonneg hmono hnonneg htotal hdemand

end

/-! ### Resolved models -/

theorem unitCurve_squareRoot : UnitCurve (Scalar.sqrt : ℝ → ℝ) where
  zero := Real.sqrt_zero
  one := Real.sqrt_one
  mono _ h _ := Real.sqrt_le_sqrt h

/-- Builders of the models that need no registration. -/
noncomputable def builtInCurves : List (ℝ → ℝ → PowerModel ℝ) :=
  [PowerModel.linear, PowerModel.square, PowerModel.squareRoot, PowerModel.cubic]

theorem unitCurve_of_mem {build : ℝ → ℝ → PowerModel ℝ} (h : build ∈ builtInCurves) :
    ∃ curve, UnitCurve curve ∧ build = PowerModel.ofCurve curve := by
  simp only [builtInCurves, List.mem_cons, List.not_mem_nil, or_false] at h
  rcases h with rfl | rfl | rfl | rfl
  · exact ⟨_, unitCurve_linear, rfl⟩
  · exact ⟨_, unitCurve_square, rfl⟩
  · exact ⟨_, unitCurve_squareRoot, rfl⟩
  · exact ⟨_, unitCurve_cubic, rfl⟩

theorem PowerModelRegistry.resolve_eq_ok {models : PowerModelRegistry ℝ} {name : String}
    {maxPower fraction : ℝ} {model : PowerModel ℝ} {build : ℝ → ℝ → PowerModel ℝ}
    (hbuild : models.builders.get? name = some build)
    (h : models.resolve name maxPower fraction = .ok model) :
    model = build maxPower fraction ∧ 0 < maxPower ∧ 0 ≤ fraction ∧ fraction ≤ 1 := by
  simp only [resolve, hbuild] at h
  split at h
  · rename_i hparameters
    exact ⟨(Except.ok.inj h).symm, hparameters⟩
  · cases h

/-- A model of one of the four curves that a registry builds: its consumption never falls while the
utilization grows, is the static power up to no load and the maximum from full load on, and lies
between the two. Placing a VM on a host with such a model never lowers the consumption. -/
theorem built_in_curves_rise {models : PowerModelRegistry ℝ} {name : String}
    {maxPower fraction : ℝ} {model : PowerModel ℝ} {build : ℝ → ℝ → PowerModel ℝ}
    (hbuild : models.builders.get? name = some build) (hcurve : build ∈ builtInCurves)
    (h : models.resolve name maxPower fraction = .ok model) :
    model.maxPower = maxPower ∧ model.staticPower = maxPower * fraction
    ∧ Monotone model.draw
    ∧ (∀ u ≤ 0, model.draw u = model.staticPower) ∧ (∀ u ≥ 1, model.draw u = model.maxPower)
    ∧ (∀ u, model.staticPower ≤ model.draw u ∧ model.draw u ≤ model.maxPower)
    ∧ ∀ (pool : Pool ℝ) (v : VmId) (vm : Vm ℝ) (g : HostId) (host : Host ℝ),
      pool.vms.get? v = some vm → pool.hosts.get? g = some host → host.powerModel = model →
      0 < host.totalMips → 0 ≤ vm.demand.mips →
      (∀ growth, Selector.powerIncrease pool v g = .ok growth → 0 ≤ growth)
      ∧ (pool.Reachable → ∃ growth, Selector.powerIncrease pool v g = .ok growth) := by
  obtain ⟨curve, hunit, rfl⟩ := unitCurve_of_mem hcurve
  obtain ⟨rfl, hmax, hfraction, hone⟩ := PowerModelRegistry.resolve_eq_ok hbuild h
  have hmono := hunit.monotone_draw hmax.le hone
  have hbetween := hunit.draw_between hmax.le hone
  refine ⟨rfl, rfl, hmono, fun u hu => hunit.draw_of_nonpos hu, fun u hu => hunit.draw_of_one_le hu,
    hbetween, ?_⟩
  intro pool v vm g host hv hh hmodel htotal hdemand
  constructor
  · intro growth hgrowth
    refine powerIncrease_nonneg hv hh ?_ ?_ htotal hdemand hgrowth
    · rw [hmodel]
      exact hmono
    · intro u
      rw [hmodel]
      exact (mul_nonneg hmax.le hfraction).trans (hbetween u).1
  · intro hr
    obtain ⟨allocated, hallocated, -⟩ := (hr.balanced g host hh).allocated
    exact ⟨_, Selector.powerIncrease_eq hv hh hallocated⟩

/-- One VM takes a quarter of the host, and another one asks for the rest. -/
noncomputable def quarteredRun : List (Pool.Op ℝ) :=
  [.addHost ⟨"host", 4, 1000, 8192, 1000, 100000, .squareRoot 200 (1 / 4)⟩,
    .addVm ⟨"tenant", 1, 1000, 1024, 100, 1000⟩, .addVm ⟨"tenant", 1, 3000, 1024, 100, 1000⟩]

-- Comparisons of real numbers do not evaluate, so that there is room is shown by hand.
theorem quarteredRun_places : ∃ (pool pool' : Pool ℝ) (host : Host ℝ) (vm : Vm ℝ),
    Pool.empty.run quarteredRun = .ok pool ∧ pool.allocate 0 0 = .done pool'
    ∧ pool'.hosts.get? 0 = some host ∧ pool'.vms.get? 1 = some vm ∧ host.isIdle = false
    ∧ host.powerModel = .squareRoot 200 (1 / 4) ∧ 0 < host.totalMips ∧ 0 ≤ vm.demand.mips := by
  obtain ⟨pool, host, vm, second, hpool, hhost, hvm, hsecond, hidle, hroom, hmodel, htotal,
      hdemand⟩ : ∃ (pool : Pool ℝ) (host : Host ℝ) (vm second : Vm ℝ),
        Pool.empty.run quarteredRun = .ok pool ∧ pool.hosts.get? 0 = some host
        ∧ pool.vms.get? 0 = some vm ∧ pool.vms.get? 1 = some second ∧ vm.host = none
        ∧ host.shortage vm.demand = .ok none ∧ host.powerModel = .squareRoot 200 (1 / 4)
        ∧ 0 < host.totalMips ∧ 0 ≤ second.demand.mips := by
    refine ⟨_, _, _, _, rfl, rfl, rfl, rfl, rfl, ?_, rfl, ?_, ?_⟩
    · rw [Host.shortage_eq_none_iff]
      refine ⟨_, rfl, ?_⟩
      rw [Resources.shortage_eq_none_iff]
      constructor
      · rw [Resources.mips_sub, Scalar.larger_eq_max]
        norm_num [Host.capacity, Host.totalMips, Vm.demand, Vm.totalMips, Scalar.ofNat,
          Host.create, Vm.create, Scalar.epsilon, Resources.zero]
      · intro k
        cases k <;> decide
    · norm_num [Host.totalMips, Scalar.ofNat, Host.create]
    · norm_num [Vm.demand, Vm.totalMips, Scalar.ofNat, Vm.create]
  obtain ⟨pool', hallocate⟩ := (Pool.reachable_of_run hpool).allocate_of_room hvm hidle hhost hroom
  obtain ⟨vm', host', placed, -, -, hhost', hplaced, hpool'⟩ :=
    (Pool.allocate_eq_done_iff _ _ _ _).mp hallocate
  rw [hhost, Option.some.injEq] at hhost'
  rw [← hhost', Host.allocate_eq_done_iff] at hplaced
  obtain ⟨-, -, -, total, -, hplaced⟩ := hplaced
  have hresident : placed.resident.get? 0 = some vm'.demand := by
    simp [hplaced]
  have hbusy : placed.isIdle = false := by
    by_contra h
    rw [Bool.not_eq_false, Host.isIdle, Bool.and_eq_true] at h
    rw [Table.get?_eq_find, Table.entries_eq_nil_of_isEmpty h.1] at hresident
    cases hresident
  refine ⟨pool, pool', placed, second, hpool, hallocate, ?_, ?_, hbusy, ?_, ?_, hdemand⟩
  · simp [hpool']
  · simp [hpool', hsecond]
  · rw [hplaced]
    exact hmodel
  · rw [hplaced]
    exact htotal

/-- The host already draws power when the second VM is placed on it. -/
theorem quarteredRun_growth : ∃ (pool pool' : Pool ℝ) (host : Host ℝ) (growth : ℝ),
    Pool.empty.run quarteredRun = .ok pool ∧ pool.allocate 0 0 = .done pool'
    ∧ pool'.hosts.get? 0 = some host ∧ host.isIdle = false
    ∧ PowerModelRegistry.builtIn.resolve "Square root" 200 (1 / 4) = .ok host.powerModel
    ∧ host.powerModel.draw (-1) = 50 ∧ host.powerModel.draw 3 = 200
    ∧ Selector.powerIncrease pool' 1 0 = .ok growth ∧ 0 ≤ growth := by
  obtain ⟨pool, pool', host, vm, hpool, hallocate, hhost, hvm, hbusy, hmodel, htotal, hdemand⟩ :=
    quarteredRun_places
  have hbuild : (PowerModelRegistry.builtIn (α := ℝ)).builders.get? "Square root"
      = some PowerModel.squareRoot := rfl
  have hcurve : PowerModel.squareRoot ∈ builtInCurves := by
    simp [builtInCurves]
  have hresolve : PowerModelRegistry.builtIn.resolve "Square root" 200 (1 / 4)
      = .ok host.powerModel := by
    simp only [PowerModelRegistry.resolve, hbuild, hmodel]
    norm_num
  obtain ⟨hmax, hstatic, -, hlow, hfull, -, hgrows⟩ :=
    built_in_curves_rise hbuild hcurve hresolve
  obtain ⟨hnonneg, hexists⟩ := hgrows pool' 1 vm 0 host hvm hhost rfl htotal hdemand
  have hr : pool'.Reachable :=
    (Pool.reachable_of_run hpool).apply (.allocate 0 0) (by
      simp [Pool.Op.apply, hallocate, Pool.settle])
  obtain ⟨growth, hgrowth⟩ := hexists hr
  refine ⟨pool, pool', host, growth, hpool, hallocate, hhost, hbusy, hresolve, ?_, ?_, hgrowth,
    hnonneg growth hgrowth⟩
  · rw [hlow (-1) (by norm_num), hstatic]
    norm_num
  · rw [hfull 3 (by norm_num), hmax]

end Datacenter
