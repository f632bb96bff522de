import Datacenter.Proofs.Offers
import Datacenter.Proofs.Passes
import Datacenter.Proofs.PlannerFaults

/-!
# What faults a pass

Hosts can always be classified. Their order may contradict itself if there are more than 20 of them,
and the planner may add up more memory than a word counts. A pass has no other fault, and choosing a
host for a VM has none at all.

Main statements: `plan_yields` and `planning_faults`.
-/

namespace Datacenter

open Checked (Yields)

theorem Checked.mapM_of_eq_ok {β γ : Type} {f : β → Checked γ} {xs : List β}
    (hf : ∀ x ∈ xs, ∃ y, f x = .ok y) : ∃ ys, xs.mapM f = .ok ys ∧ ys.length = xs.length := by
  have hf' : ∀ x ∈ xs, ∃ y, f x = .ok y ∧ () = () := by simpa using hf
  obtain ⟨ys, hys, hmap⟩ := mapM_eq_ok (g := fun _ => ()) (k := fun _ => ()) hf'
  have hlength := congrArg List.length hmap
  rw [List.length_map, List.length_map] at hlength
  exact ⟨ys, hys, hlength⟩

theorem Checked.Yields.logged_bind {α β γ : Type} {F : Fault → Prop} {P : β → Prop} {Q : γ → Prop}
    {x : Logged α β} {f : β → Logged α γ} (hx : Yields F P x.result)
    (hf : ∀ value, x.result = .ok value → P value → Yields F Q (f value).result) :
    Yields F Q (x >>= f).result := by
  rw [Logged.result_bind]
  exact hx.bind hf

namespace SingleThreshold

variable {α : Type} {pool : Pool α} {hosts : List HostId}

/-- The hosts are known, and there are not more of them than in the pool. -/
structure Among (pool : Pool α) (hosts : List HostId) : Prop where
  known : ∀ h ∈ hosts, ∃ host, pool.hosts.get? h = some host
  length : hosts.length ≤ pool.hosts.keys.length

/-- The fault of an order that contradicts itself, which takes more than 20 hosts. -/
def Disordered (pool : Pool α) (e : Fault) : Prop := e = .noOrder ∧ 20 < pool.hosts.keys.length

theorem Among.sublist {hosts' : List HostId} (h : Among pool hosts) (hs : hosts'.Sublist hosts) :
    Among pool hosts' :=
  ⟨fun g hg => h.known g (hs.subset hg), hs.length_le.trans h.length⟩

/-- Hosts whose keys are known are put in order, unless the order contradicts itself. -/
theorem inOrderOf_yields {κ : Type} {key : HostId → Checked (HostId × κ)}
    (hkey : ∀ h ∈ hosts, ∃ e, key h = .ok e) (hlength : hosts.length ≤ pool.hosts.keys.length)
    (less : HostId × κ → HostId × κ → Bool) :
    Yields (Disordered pool) (fun _ => True) (hosts.mapM key >>= inOrderOf less) := by
  obtain ⟨keyed, hkeyed, hcount⟩ := Checked.mapM_of_eq_ok hkey
  rw [hkeyed, Checked.ok_bind, inOrderOf]
  split
  · trivial
  · rename_i hnone
    refine ⟨rfl, ?_⟩
    by_contra hfew
    have hshort : keyed.length ≤ 20 := by omega
    rw [stableSort?, if_pos hshort] at hnone
    cases hnone

variable [Scalar α]

theorem byDescendingPower_yields (h : Among pool hosts) :
    Yields (Disordered pool) (fun _ => True) (byDescendingPower pool hosts) := by
  refine inOrderOf_yields (fun g hg => ?_) h.length _
  obtain ⟨host, hh⟩ := h.known g hg
  rw [(Pool.host_eq_ok_iff _ _ _).mpr hh]
  exact ⟨_, rfl⟩

theorem byUtilization_yields (hr : pool.Reachable) (h : Among pool hosts) :
    Yields (Disordered pool) (fun _ => True) (byUtilization pool hosts) := by
  refine inOrderOf_yields (fun g hg => ?_) h.length _
  obtain ⟨host, hh⟩ := h.known g hg
  obtain ⟨u, hu⟩ := hr.cpuUtilization_eq_ok hh
  rw [hu]
  exact ⟨_, rfl⟩

omit [Scalar α] in
theorem isActive_eq_ok (h : Among pool hosts) :
    ∀ g ∈ hosts, ∃ active, pool.isActive g = .ok active := by
  intro g hg
  obtain ⟨host, hh⟩ := h.known g hg
  rw [Pool.isActive, (Pool.host_eq_ok_iff _ _ _).mpr hh]
  exact ⟨_, rfl⟩

theorem activeByUtilization_yields (hr : pool.Reachable) (h : Among pool hosts) :
    Yields (Disordered pool) (fun _ => True) (activeByUtilization pool hosts) := by
  refine inOrderOf_yields (fun g hg => ?_) h.length _
  obtain ⟨host, hh⟩ := h.known g hg
  obtain ⟨u, hu⟩ := hr.cpuUtilization_eq_ok hh
  obtain ⟨active, hactive⟩ := isActive_eq_ok h g hg
  rw [hactive, Checked.ok_bind, hu]
  exact ⟨_, rfl⟩

/-! ### Phases -/

variable {p : Planner α} {targets sources : List HostId} {upper : α}

theorem distributeAll_yields (hr : pool.Reachable) (hw : p.outlook.Within pool) :
    Yields pool.Overflows (fun r => r.2.outlook.Within pool)
      (distributeAll p targets upper sources).result := by
  induction sources generalizing p with
  | nil => exact hw
  | cons source rest ih =>
    rw [distributeAll, Logged.result_bind, Logged.result_lift]
    refine (Planner.distribute_yields hr hw source targets upper).bind fun r _ hbetween => ?_
    have hrest : Yields pool.Overflows (fun r => r.2.outlook.Within pool)
        ((distributeAll r.2 targets upper rest).result >>= fun last =>
          .ok (r.1 ++ last.1, last.2)) :=
      (ih hbetween).bind fun _ _ hlast => hlast
    -- A warning that is recorded changes nothing about the rest.
    dsimp only
    split
    · simp only [Logged.result_bind]
      exact hrest
    · rw [Logged.result_bind]
      exact hrest

theorem consolidateAll_yields (hr : pool.Reachable) (hw : p.outlook.Within pool)
    (excluded : Std.TreeSet HostId) :
    Yields pool.Overflows (fun _ => True)
      (consolidateAll p targets excluded upper sources).result := by
  induction sources generalizing p excluded with
  | nil => trivial
  | cons source rest ih =>
    rw [consolidateAll]
    split
    · exact ih hw excluded
    · rw [Logged.result_bind, Logged.result_lift]
      refine (Planner.consolidate_yields hr hw source targets excluded upper).bind
        fun r _ hbetween => ?_
      dsimp only
      split
      · exact ih hbetween excluded
      · rw [Logged.result_bind]
        exact (ih hbetween (excluded.insert source)).bind fun _ _ _ => trivial

/-! ### Passes -/

/-- The faults of a pass. -/
def FaultsPass (pool : Pool α) (e : Fault) : Prop := pool.Overflows e ∨ Disordered pool e

theorem classifyAll_yields (hr : pool.Reachable) (t : Thresholds α) (monitoring : Monitoring α)
    (F : Fault → Prop) :
    Yields F (fun cs => Among pool (cs.map (·.host))) (t.classifyAll pool monitoring) := by
  have hclassify : ∀ h ∈ pool.hostIds, ∃ c, t.classify pool monitoring h = .ok c := by
    intro h hh
    obtain ⟨host, hhost⟩ := (Table.mem_keys_iff _ _).mp hh
    obtain ⟨cpu, hcpu⟩ := hr.cpuUtilization_eq_ok hhost
    obtain ⟨ram, hram⟩ := hr.ramUtilization_eq_ok hhost
    rw [Thresholds.classify, hcpu, Checked.ok_bind, hram]
    exact ⟨_, rfl⟩
  obtain ⟨classifications, hall, hlength⟩ := Checked.mapM_of_eq_ok hclassify
  refine .of_eq_ok hall ⟨fun h hh => ?_, ?_⟩
  · obtain ⟨c, hc, rfl⟩ := List.mem_map.mp hh
    obtain ⟨g, hg, heq⟩ := Checked.exists_of_mem_mapM hall hc
    rw [Thresholds.host_of_classify heq]
    exact (Table.mem_keys_iff _ _).mp hg
  · rw [List.length_map, hlength]
    exact le_rfl

omit [Scalar α] in
/-- The active ones among known hosts can be told. -/
theorem filterM_isActive_yields (h : Among pool hosts) (F : Fault → Prop) :
    Yields F (Among pool) (hosts.filterM pool.isActive) := by
  obtain ⟨active, hactive⟩ := Checked.filterM_of_eq_ok (isActive_eq_ok h)
  exact .of_eq_ok hactive (h.sublist (Checked.filterM_eq_ok hactive).1)

omit [Scalar α] in
theorem Among.hostsWith {classifications : List (Classification α)}
    (h : Among pool (classifications.map (·.host))) (q : LoadStatus → Bool) :
    Among pool (Thresholds.hostsWith q classifications) :=
  h.sublist (List.filter_sublist.map _)

theorem plan_yields (hr : pool.Reachable) (t : Thresholds α) (monitoring : Monitoring α)
    (id : Nat) : Yields (FaultsPass pool) (fun _ => True) (plan t pool monitoring id).result := by
  have hoverflows : ∀ e, pool.Overflows e → FaultsPass pool e := fun _ => .inl
  have hdisordered : ∀ e, Disordered pool e → FaultsPass pool e := fun _ => .inr
  rw [plan]
  refine .logged_bind (classifyAll_yields hr t monitoring _) fun classifications _ hamong =>
    .logged_bind (P := fun _ => True) trivial fun _ _ _ => ?_
  extract_lets ids overloaded others planner consolidate
  have hw : planner.outlook.Within pool := Planner.within_start hr id
  have hothers : Among pool others := hamong.hostsWith fun status => status ≠ .overloaded
  -- Whatever the first phase planned, the second one starts from loads within the capacity.
  have hsecond : ∀ r : List (Migration α) × Planner α, r.2.outlook.Within pool →
      Yields (FaultsPass pool) (fun _ => True) (consolidate r).result := by
    intro r hr'
    refine .logged_bind (P := Among pool) ?_ fun targets _ _ =>
      .logged_bind (P := Among pool) ?_ fun active _ hactive => ?_
    · rw [Logged.result_filterM_lift]
      exact filterM_isActive_yields hothers _
    · rw [Logged.result_filterM_lift]
      exact filterM_isActive_yields (hamong.hostsWith fun status => status = .underloaded) _
    · refine .logged_bind ((byUtilization_yields hr hactive).mono hdisordered)
        fun sources _ _ => ?_
      exact .logged_bind ((consolidateAll_yields hr hr' ∅).mono hoverflows)
        fun _ _ _ => trivial
  split
  · have hnone : Yields (FaultsPass pool) (fun r => r.2.outlook.Within pool)
        (pure ([], planner) : Logged α (List (Migration α) × Planner α)).result := hw
    exact hnone.logged_bind fun r _ => hsecond r
  · have hoverloaded : Among pool overloaded :=
      hamong.hostsWith fun status => status = .overloaded
    refine .logged_bind ((byDescendingPower_yields hoverloaded).mono hdisordered)
      fun sources _ _ => .logged_bind ((activeByUtilization_yields hr hothers).mono hdisordered)
        fun targets _ _ => ?_
    exact .logged_bind ((distributeAll_yields hr hw).mono hoverflows)
      fun r _ => hsecond r

theorem optimize_yields (hr : pool.Reachable) (policy : SingleThreshold α)
    (monitoring : Monitoring α) (id : Nat) :
    Yields (FaultsPass pool) (fun _ => True)
      (AllocationPolicy.optimize policy pool monitoring id).result :=
  (plan_yields hr policy.thresholds monitoring id).logged_bind fun _ _ _ => trivial

/-- A host for a VM can always be selected, whatever hosts are given, and placing a VM is no fault.
A planner answers all calls, unless the memory of a host and of a VM from another host exceeds a
word. A pass may also find no order of more than 20 hosts, and is answered otherwise. No id that is
looked up is unknown. -/
theorem planning_faults {α : Type} [Scalar α] {pool : Pool α} (hr : pool.Reachable) :
    (∀ (s : Selector α) (v : VmId) (candidates : List HostId),
      ∃ choice, s.selectHost pool v candidates = .ok choice)
    ∧ (∀ (policy : SingleThreshold α) (v : VmId),
      (AllocationPolicy.place policy pool v).IsSettled)
    ∧ (∀ (id : Nat) (calls : List (Planner.Call α)),
      (∃ answer, (Planner.start pool id).answers calls = .ok answer)
        ∨ ((Planner.start pool id).answers calls = .error .overflow ∧ ∃ v h, pool.Outgrows v h))
    ∧ ∀ (policy : SingleThreshold α) (monitoring : Monitoring α) (id : Nat),
      (∃ answer, (AllocationPolicy.optimize policy pool monitoring id).result = .ok answer)
        ∨ ((AllocationPolicy.optimize policy pool monitoring id).result = .error .overflow
          ∧ ∃ v h, pool.Outgrows v h)
        ∨ ((AllocationPolicy.optimize policy pool monitoring id).result = .error .noOrder
          ∧ 20 < pool.hosts.keys.length) := by
  refine ⟨fun s v candidates => s.selectHost_answers hr v candidates,
    fun policy v => AllocationPolicy.place_isSettled policy hr v, fun id calls => ?_,
    fun policy monitoring id => ?_⟩
  · rcases (Planner.answers_yields hr (Planner.within_start hr id) calls).cases with
      ⟨answer, h, -⟩ | ⟨e, h, rfl, hsum⟩
    · exact .inl ⟨answer, h⟩
    · exact .inr ⟨h, hsum⟩
  · rcases (optimize_yields hr policy monitoring id).cases with
      ⟨answer, h, -⟩ | ⟨e, h, ⟨rfl, hsum⟩ | ⟨rfl, hmany⟩⟩
    · exact .inl ⟨answer, h⟩
    · exact .inr (.inl ⟨h, hsum⟩)
    · exact .inr (.inr ⟨h, hmany⟩)

/-- Two hosts with as much memory as a word counts. The VM on the first one makes it overloaded, and
is larger than what the other VM leaves of the second one. -/
def hugeRun : List (Pool.Op Float) :=
  let host : HostSpec Float :=
    ⟨"host", 4, 1000, 18446744073709551615, 1000, 100000, .linear 200 0.7⟩
  [.addHost host, .addHost host, .addVm ⟨"tenant", 1, 500, 17000000000000000000, 100, 1000⟩,
    .addVm ⟨"tenant", 1, 500, 9300000000000000000, 100, 1000⟩, .allocate 0 0, .allocate 1 1]

def hugePolicy : SingleThreshold Float := .ofThresholds ⟨0.8, 0.2⟩

theorem hugeRun_outgrows : ∃ pool, Pool.empty.run hugeRun = .ok pool ∧ pool.Reachable
    ∧ (∃ choice, Selector.selectHost ⟨0.8⟩ pool 0 [1, 7] = .ok choice)
    ∧ ∃ v h, pool.Outgrows v h := by
  have hrun : ((Pool.empty.run hugeRun).toOption.any fun pool => pool.hosts.keys.length == 2
      && (AllocationPolicy.optimize hugePolicy pool (.ofLength 2) 1).result.toOption.isNone)
      = true := by
    decide +kernel
  obtain ⟨pool, hp, htest⟩ := Checked.eq_ok_of_any hrun
  rw [Bool.and_eq_true, beq_iff_eq] at htest
  have hr := Pool.reachable_of_run hp
  obtain ⟨hselect, -, -, hpass⟩ := planning_faults hr
  refine ⟨pool, hp, hr, hselect _ _ _, ?_⟩
  rcases hpass hugePolicy (.ofLength 2) 1 with ⟨answer, h⟩ | ⟨-, hsum⟩ | ⟨-, hmany⟩
  · rw [h] at htest
    cases htest.2
  · exact hsum
  · omega

/-- No host has room for the VM that should move, which is a fault and no empty plan. -/
theorem hugeRun_overflows : ∃ pool, Pool.empty.run hugeRun = .ok pool ∧ pool.Reachable
    ∧ Selector.selectHost ⟨0.8⟩ pool 0 [1, 7] = .ok none
    ∧ (Planner.start pool 1).distribute 0 [1] 0.8 = .error .overflow
    ∧ (AllocationPolicy.optimize hugePolicy pool (.ofLength 2) 1).result = .error .overflow := by
  have hrun : ((Pool.empty.run hugeRun).toOption.any fun pool =>
      Selector.selectHost ⟨0.8⟩ pool 0 [1, 7] == .ok none
        && ((fun _ => ()) <$> (Planner.start pool 1).distribute 0 [1] 0.8) == .error .overflow
        && ((fun _ => ()) <$> (AllocationPolicy.optimize hugePolicy pool (.ofLength 2) 1).result)
          == .error .overflow) = true := by
    decide +kernel
  obtain ⟨pool, hp, htest⟩ := Checked.eq_ok_of_any hrun
  simp only [Bool.and_eq_true, beq_iff_eq, Checked.map_eq_error_iff] at htest
  obtain ⟨⟨hselect, hdistribute⟩, hpass⟩ := htest
  exact ⟨pool, hp, Pool.reachable_of_run hp, hselect, hdistribute, hpass⟩

end SingleThreshold

end Datacenter
