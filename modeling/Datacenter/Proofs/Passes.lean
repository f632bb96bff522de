import Datacenter.Policy.SingleThreshold
import Datacenter.Proofs.PlannerSteps

/-!
# Optimization passes

A pass classifies all hosts, moves VMs from overloaded hosts to the other ones, and then empties
underloaded hosts onto active ones. One planner makes the plans of both phases, so the second phase
knows the targets of the first one. A host that was emptied is excluded from there on, and a host
that could not be emptied was no source.

Main statements: `distributeAll_below`, `consolidateAll_empties` and `parts_of_plan`.
-/

namespace Datacenter

theorem Checked.exists_of_mem_mapM {β γ : Type} {f : β → Checked γ} {xs : List β} {ys : List γ}
    (h : xs.mapM f = .ok ys) {y : γ} (hy : y ∈ ys) : ∃ x ∈ xs, f x = .ok y := by
  induction xs generalizing ys with
  | nil =>
    rw [List.mapM_nil, Checked.pure_eq_ok, Except.ok.injEq] at h
    rw [← h] at hy
    cases hy
  | cons x xs ih =>
    simp only [List.mapM_cons, Checked.bind_eq_ok_iff, Checked.pure_eq_ok, Except.ok.injEq] at h
    obtain ⟨first, hfirst, rest, hrest, rfl⟩ := h
    rcases List.mem_cons.mp hy with rfl | hy
    · exact ⟨x, List.mem_cons_self, hfirst⟩
    · obtain ⟨x', hx', heq⟩ := ih hrest hy
      exact ⟨x', List.mem_cons_of_mem _ hx', heq⟩

/-- Values that tell what they were made from give it back in order. -/
theorem Checked.map_of_mapM {β γ : Type} {f : β → Checked γ} {g : γ → β}
    (hg : ∀ x y, f x = .ok y → g y = x) {xs : List β} {ys : List γ} (h : xs.mapM f = .ok ys) :
    ys.map g = xs := by
  induction xs generalizing ys with
  | nil =>
    rw [List.mapM_nil, Checked.pure_eq_ok, Except.ok.injEq] at h
    rw [← h, List.map_nil]
  | cons x xs ih =>
    simp only [List.mapM_cons, Checked.bind_eq_ok_iff, Checked.pure_eq_ok, Except.ok.injEq] at h
    obtain ⟨first, hfirst, rest, hrest, rfl⟩ := h
    rw [List.map_cons, hg x first hfirst, ih hrest]

/-- A filter whose test records nothing has the result of the test alone. -/
theorem Logged.result_filterM_lift {α β : Type} (f : β → Checked Bool) (xs : List β) :
    (xs.filterM fun x => (liftM (f x) : Logged α Bool)).result = xs.filterM f := by
  have haux : ∀ acc : List β,
      (List.filterAuxM (fun x => (liftM (f x) : Logged α Bool)) xs acc).result
        = List.filterAuxM f xs acc := by
    induction xs with
    | nil => exact fun acc => rfl
    | cons x xs ih =>
      intro acc
      rw [List.filterAuxM, List.filterAuxM, Logged.result_bind, Logged.result_lift]
      exact congrArg (f x >>= ·) (funext fun keep => ih _)
  rw [List.filterM, List.filterM, Logged.result_bind, haux]
  rfl

/-! ### Statuses of hosts -/

namespace Thresholds

variable {α : Type} [Scalar α]

/-- The status that a host is classified with. -/
def statusOf (t : Thresholds α) (pool : Pool α) (monitoring : Monitoring α) (h : HostId) :
    Checked LoadStatus := do
  let c ← t.classify pool monitoring h
  return c.status

variable {t : Thresholds α} {pool : Pool α} {monitoring : Monitoring α}

theorem host_of_classify {h : HostId} {c : Classification α}
    (hc : t.classify pool monitoring h = .ok c) : c.host = h := by
  simp only [classify, Checked.bind_eq_ok_iff, Checked.pure_eq_ok, Except.ok.injEq] at hc
  obtain ⟨_, -, _, -, rfl⟩ := hc
  rfl

omit [Scalar α] in
/-- The hosts whose status passes the test. -/
def hostsWith (q : LoadStatus → Bool) (classifications : List (Classification α)) : List HostId :=
  (classifications.filter fun c => q c.status).map (·.host)

theorem statusOf_of_mem_hostsWith {classifications : List (Classification α)}
    (hall : t.classifyAll pool monitoring = .ok classifications) {q : LoadStatus → Bool}
    {h : HostId} (hh : h ∈ hostsWith q classifications) :
    ∃ status, t.statusOf pool monitoring h = .ok status ∧ q status = true := by
  obtain ⟨c, hc, rfl⟩ := List.mem_map.mp hh
  obtain ⟨hmem, hq⟩ := List.mem_filter.mp hc
  obtain ⟨g, -, hg⟩ := Checked.exists_of_mem_mapM hall hmem
  refine ⟨c.status, ?_, hq⟩
  rw [statusOf, host_of_classify hg, hg, Checked.ok_bind, Checked.pure_eq_ok]

theorem nodup_hostsWith {classifications : List (Classification α)}
    (hall : t.classifyAll pool monitoring = .ok classifications) (q : LoadStatus → Bool) :
    (hostsWith q classifications).Nodup := by
  have hhosts : classifications.map (·.host) = pool.hostIds :=
    Checked.map_of_mapM (fun _ _ hc => host_of_classify hc) hall
  have hnodup : (classifications.map (·.host)).Nodup := hhosts ▸ pool.hosts.nodup_keys
  exact hnodup.sublist (List.filter_sublist.map _)

end Thresholds

namespace SingleThreshold

variable {α : Type}

/-! ### Orders of hosts -/

/-- A list of hosts that is ordered by keys holds the same hosts. -/
theorem perm_of_inOrderOf {κ : Type} {less : HostId × κ → HostId × κ → Bool}
    {key : HostId → Checked (HostId × κ)} (hkey : ∀ h e, key h = .ok e → e.1 = h)
    {hosts order : List HostId} {keyed : List (HostId × κ)} (hkeyed : hosts.mapM key = .ok keyed)
    (horder : inOrderOf less keyed = .ok order) : order.Perm hosts := by
  rw [inOrderOf] at horder
  split at horder
  · rename_i sorted hsort
    cases horder
    have hperm := (perm_of_stableSort? hsort).map Prod.fst
    rwa [Checked.map_of_mapM hkey hkeyed] at hperm
  · cases horder

variable [Scalar α] {pool : Pool α} {hosts order : List HostId}

theorem perm_of_byDescendingPower (horder : byDescendingPower pool hosts = .ok order) :
    order.Perm hosts := by
  rw [byDescendingPower, Checked.bind_eq_ok_iff] at horder
  obtain ⟨keyed, hkeyed, horder⟩ := horder
  refine perm_of_inOrderOf (fun g e he => ?_) hkeyed horder
  simp only [Checked.bind_eq_ok_iff, Checked.pure_eq_ok, Except.ok.injEq] at he
  obtain ⟨_, -, rfl⟩ := he
  rfl

theorem perm_of_byUtilization (horder : byUtilization pool hosts = .ok order) :
    order.Perm hosts := by
  rw [byUtilization, Checked.bind_eq_ok_iff] at horder
  obtain ⟨keyed, hkeyed, horder⟩ := horder
  refine perm_of_inOrderOf (fun g e he => ?_) hkeyed horder
  simp only [Checked.bind_eq_ok_iff, Checked.pure_eq_ok, Except.ok.injEq] at he
  obtain ⟨_, -, rfl⟩ := he
  rfl

theorem perm_of_activeByUtilization (horder : activeByUtilization pool hosts = .ok order) :
    order.Perm hosts := by
  rw [activeByUtilization, Checked.bind_eq_ok_iff] at horder
  obtain ⟨keyed, hkeyed, horder⟩ := horder
  refine perm_of_inOrderOf (fun g e he => ?_) hkeyed horder
  simp only [Checked.bind_eq_ok_iff, Checked.pure_eq_ok, Except.ok.injEq] at he
  obtain ⟨_, -, _, -, rfl⟩ := he
  rfl

/-! ### The phases -/

omit [Scalar α] in
/-- The migration takes a VM from one of the sources to one of the targets. -/
structure Serves (reason : MigrationReason) (sources targets : List HostId) (m : Migration α) :
    Prop where
  reason : m.reason = reason
  source : m.source ∈ sources
  target : m.target ∈ targets

omit [Scalar α] in
theorem Serves.mono {reason : MigrationReason} {sources sources' targets targets' : List HostId}
    {m : Migration α} (h : Serves reason sources targets m) (hs : ∀ g ∈ sources, g ∈ sources')
    (ht : ∀ g ∈ targets, g ∈ targets') : Serves reason sources' targets' m :=
  ⟨h.reason, hs _ h.source, ht _ h.target⟩

variable {p p' : Planner α} {targets sources : List HostId} {upper : α} {ms : List (Migration α)}

/-- Whether or not a warning is recorded, the other sources follow. -/
theorem distributeAll_cons_eq_ok {source : HostId}
    (h : (distributeAll p targets upper (source :: sources)).result = .ok (ms, p')) :
    ∃ moved between later, p.distribute source targets upper = .ok (moved, between)
      ∧ (distributeAll between targets upper sources).result = .ok (later, p')
      ∧ ms = moved ++ later := by
  simp only [distributeAll, Logged.result_bind, Logged.result_lift, Checked.bind_eq_ok_iff] at h
  obtain ⟨⟨moved, between⟩, hmoved, h⟩ := h
  split at h
  · simp only [Logged.result_bind, Checked.bind_eq_ok_iff, Logged.result_pure, Except.ok.injEq,
      Prod.mk.injEq] at h
    obtain ⟨_, -, ⟨later, last⟩, hlater, rfl, rfl⟩ := h
    exact ⟨moved, between, later, hmoved, hlater, rfl⟩
  · simp only [Logged.result_bind, Checked.bind_eq_ok_iff, Logged.result_pure, Except.ok.injEq,
      Prod.mk.injEq] at h
    obtain ⟨⟨later, last⟩, hlater, rfl, rfl⟩ := h
    exact ⟨moved, between, later, hmoved, hlater, rfl⟩

theorem distributeAll_below (own : p.pool.Ownership)
    (h : (distributeAll p targets upper sources).result = .ok (ms, p')) :
    Planner.PlannedBelow upper p.outlook ms p'.outlook
      ∧ ∀ m ∈ ms, Serves .distribute sources targets m := by
  induction sources generalizing p p' ms with
  | nil =>
    rw [distributeAll, Logged.result_pure, Except.ok.injEq, Prod.mk.injEq] at h
    obtain ⟨rfl, rfl⟩ := h
    exact Planner.PlannedBelow.nil_all p.outlook
  | cons source rest ih =>
    obtain ⟨moved, between, later, hmoved, hlater, rfl⟩ := distributeAll_cons_eq_ok h
    obtain ⟨hplanned, hfollows⟩ := Planner.distribute_below own hmoved
    have hpool : between.pool = p.pool := hplanned.planned.pool_eq
    obtain ⟨hbelow, hserves⟩ := ih (hpool ▸ own) hlater
    refine ⟨hplanned.append hbelow, List.forall_mem_append.mpr ⟨fun m hm => ?_, fun m hm => ?_⟩⟩
    · obtain ⟨hm, hreason⟩ := hfollows m hm
      exact ⟨hreason, hm.source ▸ List.mem_cons_self, hm.target⟩
    · exact (hserves m hm).mono (fun _ => List.mem_cons_of_mem _) fun _ => id

/-- What the second phase plans from the outlook. It leaves alone the targets that are planned
already, and each source that is emptied is no target before or after that. -/
structure Empties (p : Planner.Outlook α) (targets sources : List HostId)
    (excluded : Std.TreeSet HostId) (upper : α) (ms : List (Migration α)) : Prop where
  below : ∃ p', Planner.PlannedBelow upper p ms p'
  serves : ∀ m ∈ ms, Serves .consolidate sources targets m
  unplanned : ∀ m ∈ ms, p.isPlannedTarget m.source = false
  notExcluded : ∀ m ∈ ms, excluded.contains m.target = false
  disjoint : ∀ m ∈ ms, ∀ m' ∈ ms, m.source ≠ m'.target

namespace Empties

variable {p between : Planner.Outlook α} {source : HostId} {excluded : Std.TreeSet HostId}
  {moved later : List (Migration α)}

theorem nil (p : Planner.Outlook α) : Empties p targets [] excluded upper [] where
  below := ⟨p, .nil p⟩
  serves _ hm := nomatch hm
  unplanned _ hm := nomatch hm
  notExcluded _ hm := nomatch hm
  disjoint _ hm := nomatch hm

theorem skip (h : Empties p targets sources excluded upper ms) (source : HostId) :
    Empties p targets (source :: sources) excluded upper ms where
  below := h.below
  serves m hm := (h.serves m hm).mono (fun _ => List.mem_cons_of_mem _) fun _ => id
  unplanned := h.unplanned
  notExcluded := h.notExcluded
  disjoint := h.disjoint

/-- The first source is emptied, and excluded for the others. -/
theorem cons (hsource : p.isPlannedTarget source = false)
    (hbelow : Planner.PlannedBelow upper p moved between)
    (hmoved : ∀ m ∈ moved, Planner.Follows source targets excluded m ∧ m.reason = .consolidate)
    (h : Empties between targets sources (excluded.insert source) upper later) :
    Empties p targets (source :: sources) excluded upper (moved ++ later) := by
  -- Later sources are no planned targets, and later targets are not this source.
  have hfree : ∀ m ∈ later, ∀ g, between.isPlannedTarget g = true → m.source ≠ g := by
    rintro m hm g hg rfl
    rw [h.unplanned m hm] at hg
    cases hg
  have hallowed : ∀ m ∈ later, source ≠ m.target ∧ excluded.contains m.target = false := by
    intro m hm
    have hnot := h.notExcluded m hm
    rw [Std.TreeSet.contains_insert, Bool.or_eq_false_iff, beq_eq_false_iff_ne, Ne,
      Nat.compare_eq_eq] at hnot
    exact hnot
  obtain ⟨p', hlater⟩ := h.below
  refine ⟨⟨p', hbelow.append hlater⟩, List.forall_mem_append.mpr ⟨fun m hm => ?_, fun m hm => ?_⟩,
    List.forall_mem_append.mpr ⟨fun m hm => ?_, fun m hm => ?_⟩,
    List.forall_mem_append.mpr ⟨fun m hm => ?_, fun m hm => ?_⟩, fun m hm m' hm' => ?_⟩
  · obtain ⟨hfollows, hreason⟩ := hmoved m hm
    exact ⟨hreason, hfollows.source ▸ List.mem_cons_self, hfollows.target⟩
  · exact (h.skip source).serves m hm
  · exact (hmoved m hm).1.source ▸ hsource
  · rw [← Bool.not_eq_true]
    exact fun hplanned => hfree m hm _ ((hbelow.isPlannedTarget_iff _).mpr (.inr hplanned)) rfl
  · exact (hmoved m hm).1.notSkipped
  · exact (hallowed m hm).2
  · rcases List.mem_append.mp hm with hm | hm
    · rw [(hmoved m hm).1.source]
      rcases List.mem_append.mp hm' with hm' | hm'
      · have hne := (hbelow.planned.suits m' hm').ne
        rwa [(hmoved m' hm').1.source] at hne
      · exact (hallowed m' hm').1
    · rcases List.mem_append.mp hm' with hm' | hm'
      · exact hfree m hm _ ((hbelow.isPlannedTarget_iff _).mpr (.inl ⟨m', hm', rfl⟩))
      · exact h.disjoint m hm m' hm'

end Empties

theorem consolidateAll_empties (own : p.pool.Ownership) {excluded : Std.TreeSet HostId}
    (h : (consolidateAll p targets excluded upper sources).result = .ok ms) :
    Empties p.outlook targets sources excluded upper ms := by
  induction sources generalizing p excluded ms with
  | nil =>
    rw [consolidateAll, Logged.result_pure, Except.ok.injEq] at h
    subst h
    exact .nil p.outlook
  | cons source rest ih =>
    rw [consolidateAll] at h
    split at h
    · exact (ih own h).skip source
    · rename_i hsource
      rw [Bool.not_eq_true] at hsource
      simp only [Logged.result_bind, Logged.result_lift, Checked.bind_eq_ok_iff] at h
      obtain ⟨⟨moved, between⟩, hmoved, h⟩ := h
      obtain ⟨hplanned, hfollows⟩ := Planner.consolidate_below own hmoved
      have hpool : between.pool = p.pool := hplanned.planned.pool_eq
      have own' : between.pool.Ownership := hpool ▸ own
      split at h
      · rename_i hempty
        simp only [Logged.result_bind, Checked.bind_eq_ok_iff] at h
        obtain ⟨_, -, hlater⟩ := h
        -- A call that plans nothing leaves the outlook as it was.
        obtain rfl : moved = [] := List.isEmpty_iff.mp hempty
        rw [hplanned.outlook_eq]
        exact (ih own' hlater).skip source
      · simp only [Logged.result_bind, Checked.bind_eq_ok_iff, Logged.result_pure,
          Except.ok.injEq] at h
        obtain ⟨later, hlater, rfl⟩ := h
        exact .cons hsource hplanned hfollows (ih own' hlater)

/-! ### Passes -/

/-- The two parts of the plan of a pass. -/
structure Phases (t : Thresholds α) (pool : Pool α) (monitoring : Monitoring α) (id : Nat)
    (distributed consolidated : List (Migration α)) : Prop where
  below : ∃ p, Planner.PlannedBelow t.upper (Planner.start pool id).outlook
    (distributed ++ consolidated) p
  relieves : ∀ m ∈ distributed, m.reason = .distribute
    ∧ t.statusOf pool monitoring m.source = .ok .overloaded
  empties : ∀ m ∈ consolidated, m.reason = .consolidate ∧ pool.isActive m.source = .ok true
    ∧ t.statusOf pool monitoring m.source = .ok .underloaded ∧ pool.isActive m.target = .ok true
  spares : ∀ m ∈ distributed ++ consolidated,
    ∃ status, t.statusOf pool monitoring m.target = .ok status ∧ status ≠ .overloaded
  disjoint : ∀ m ∈ consolidated, ∀ m' ∈ distributed ++ consolidated, m.source ≠ m'.target

/-- Hosts are overloaded or not, and sources of the second phase are neither that nor planned
targets, so no source is a target. -/
theorem Phases.of_consolidateAll (own : pool.Ownership) {t : Thresholds α}
    {monitoring : Monitoring α} {id : Nat} {classifications : List (Classification α)}
    {distributed consolidated : List (Migration α)} {underloaded : List HostId}
    (hall : t.classifyAll pool monitoring = .ok classifications)
    (hbelow : Planner.PlannedBelow t.upper (Planner.start pool id).outlook distributed p.outlook)
    (hserves : ∀ m ∈ distributed,
      Serves .distribute (Thresholds.hostsWith (· = .overloaded) classifications)
        (Thresholds.hostsWith (· ≠ .overloaded) classifications) m)
    (htargets : (Thresholds.hostsWith (· ≠ .overloaded) classifications).filterM pool.isActive
      = .ok targets)
    (hunderloaded : (Thresholds.hostsWith (· = .underloaded) classifications).filterM pool.isActive
      = .ok underloaded)
    (hsources : byUtilization pool underloaded = .ok sources)
    (h : (consolidateAll p targets ∅ t.upper sources).result = .ok consolidated) :
    Phases t pool monitoring id distributed consolidated := by
  have hpool : p.pool = pool := hbelow.planned.pool_eq
  have hempties := consolidateAll_empties (hpool ▸ own) h
  obtain ⟨last, hlast⟩ := hempties.below
  have hstatus : ∀ {g : HostId} {status : LoadStatus},
      g ∈ Thresholds.hostsWith (· = status) classifications →
        t.statusOf pool monitoring g = .ok status := by
    intro g status hg
    obtain ⟨found, hfound, heq⟩ := Thresholds.statusOf_of_mem_hostsWith hall hg
    rwa [of_decide_eq_true heq] at hfound
  have hspared : ∀ {g : HostId}, g ∈ Thresholds.hostsWith (· ≠ .overloaded) classifications →
      ∃ status, t.statusOf pool monitoring g = .ok status ∧ status ≠ .overloaded := by
    intro g hg
    obtain ⟨found, hfound, hne⟩ := Thresholds.statusOf_of_mem_hostsWith hall hg
    exact ⟨found, hfound, of_decide_eq_true hne⟩
  obtain ⟨htargetsSub, htargetsActive, -⟩ := Checked.filterM_eq_ok htargets
  obtain ⟨hsourcesSub, hsourcesActive, -⟩ := Checked.filterM_eq_ok hunderloaded
  refine ⟨⟨last, hbelow.append hlast⟩, fun m hm => ?_, fun m hm => ?_,
    List.forall_mem_append.mpr ⟨fun m hm => ?_, fun m hm => ?_⟩, fun m hm m' hm' => ?_⟩
  · exact ⟨(hserves m hm).reason, hstatus (hserves m hm).source⟩
  · have hm := hempties.serves m hm
    have hsource := (perm_of_byUtilization hsources).subset hm.source
    exact ⟨hm.reason, hsourcesActive _ hsource, hstatus (hsourcesSub.subset hsource),
      htargetsActive _ hm.target⟩
  · exact hspared (hserves m hm).target
  · exact hspared (htargetsSub.subset (hempties.serves m hm).target)
  · rcases List.mem_append.mp hm' with hm' | hm'
    · have hplanned := (hbelow.isPlannedTarget_iff m'.target).mpr (.inl ⟨m', hm', rfl⟩)
      intro heq
      rw [← heq, hempties.unplanned m hm] at hplanned
      cases hplanned
    · exact hempties.disjoint m hm m' hm'

/-- The parts of a plan, and how the first of them is made. -/
theorem parts_of_plan (own : pool.Ownership) {t : Thresholds α} {monitoring : Monitoring α}
    {id : Nat} (h : (plan t pool monitoring id).result = .ok ms) :
    ∃ distributed consolidated, ms = distributed ++ consolidated
      ∧ Phases t pool monitoring id distributed consolidated
      ∧ (distributed = [] ∨ ∃ sources targets p, sources.Nodup
        ∧ (distributeAll (Planner.start pool id) targets t.upper sources).result
          = .ok (distributed, p)) := by
  simp only [plan, Logged.result_bind, Logged.result_lift, Checked.bind_eq_ok_iff] at h
  obtain ⟨classifications, hclass, _, -, h⟩ := h
  split at h
  · simp only [Logged.result_bind, Logged.result_lift, Logged.result_pure,
      Logged.result_filterM_lift, Checked.bind_eq_ok_iff, Except.ok.injEq] at h
    obtain ⟨⟨distributed, p⟩, hstart, targets, htargets, underloaded, hunderloaded, sources,
      hsources, consolidated, hconsolidated, rfl⟩ := h
    obtain ⟨rfl, rfl⟩ := Prod.mk.inj hstart
    obtain ⟨hbelow, hserves⟩ := Planner.PlannedBelow.nil_all (Planner.start pool id).outlook
    exact ⟨_, _, rfl, .of_consolidateAll own hclass hbelow hserves htargets hunderloaded hsources
      hconsolidated, .inl rfl⟩
  · simp only [Logged.result_bind, Logged.result_lift, Logged.result_pure,
      Logged.result_filterM_lift, Checked.bind_eq_ok_iff, Except.ok.injEq] at h
    obtain ⟨order, horder, room, hroom, ⟨distributed, p⟩, hdistributed, targets, htargets,
      underloaded, hunderloaded, sources, hsources, consolidated, hconsolidated, rfl⟩ := h
    obtain ⟨hbelow, hserves⟩ := distributeAll_below own hdistributed
    have hperm := perm_of_byDescendingPower horder
    refine ⟨_, _, rfl, .of_consolidateAll own hclass hbelow (fun m hm => ?_) htargets hunderloaded
      hsources hconsolidated, .inr ⟨order, room, p, ?_, hdistributed⟩⟩
    · exact (hserves m hm).mono (fun _ hg => hperm.subset hg)
        fun _ hg => (perm_of_activeByUtilization hroom).subset hg
    · exact hperm.nodup_iff.mpr (Thresholds.nodup_hostsWith hclass (· = .overloaded))

theorem phases_of_plan (own : pool.Ownership) {t : Thresholds α} {monitoring : Monitoring α}
    {id : Nat} (h : (plan t pool monitoring id).result = .ok ms) :
    ∃ distributed consolidated, ms = distributed ++ consolidated
      ∧ Phases t pool monitoring id distributed consolidated := by
  obtain ⟨distributed, consolidated, hms, hphases, -⟩ := parts_of_plan own h
  exact ⟨distributed, consolidated, hms, hphases⟩

/-- The migrations of a pass are planned one after the other by one planner. -/
theorem planned_of_plan (own : pool.Ownership) {t : Thresholds α} {monitoring : Monitoring α}
    {id : Nat} (h : (plan t pool monitoring id).result = .ok ms) :
    ∃ p, Planner.Planned (Planner.start pool id).outlook ms p := by
  obtain ⟨_, _, rfl, hphases⟩ := phases_of_plan own h
  obtain ⟨p, hbelow⟩ := hphases.below
  exact ⟨p, hbelow.planned⟩

theorem plan_of_optimize {policy policy' : SingleThreshold α} {monitoring : Monitoring α} {id : Nat}
    (h : (AllocationPolicy.optimize policy pool monitoring id).result = .ok (ms, policy')) :
    (plan policy.thresholds pool monitoring id).result = .ok ms ∧ policy' = policy := by
  obtain ⟨planned, hplan, heq⟩ := (Checked.bind_eq_ok_iff _ _ _).mp
    ((Logged.result_bind _ _).symm.trans h)
  obtain ⟨rfl, rfl⟩ := Checked.pure_pair_eq_ok_iff.mp heq
  exact ⟨hplan, rfl⟩

/-! ### Roles -/

/-- No host is a source and a target in the plan of a pass. VMs are moved off overloaded hosts
first. Then active underloaded hosts are emptied onto active ones. No target is overloaded. -/
theorem roles_disjoint (hr : pool.Reachable) {policy policy' : SingleThreshold α}
    {monitoring : Monitoring α} {id : Nat} {plan : List (Migration α)}
    (h : (AllocationPolicy.optimize policy pool monitoring id).result = .ok (plan, policy')) :
    (∀ m ∈ plan, ∀ m' ∈ plan, m.source ≠ m'.target)
    ∧ (∀ m ∈ plan, m.reason = .distribute →
      policy.thresholds.statusOf pool monitoring m.source = .ok .overloaded)
    ∧ (∀ m ∈ plan, m.reason = .consolidate → pool.isActive m.source = .ok true
      ∧ policy.thresholds.statusOf pool monitoring m.source = .ok .underloaded
      ∧ pool.isActive m.target = .ok true)
    ∧ (∀ m ∈ plan, ∃ status,
      policy.thresholds.statusOf pool monitoring m.target = .ok status ∧ status ≠ .overloaded)
    ∧ ∃ distributed consolidated, plan = distributed ++ consolidated
      ∧ (∀ m ∈ distributed, m.reason = .distribute)
      ∧ ∀ m ∈ consolidated, m.reason = .consolidate := by
  obtain ⟨distributed, consolidated, rfl, hphases⟩ := phases_of_plan hr.ownership
    (plan_of_optimize h).1
  have hdistributed : ∀ m ∈ distributed, m.reason = .distribute :=
    fun m hm => (hphases.relieves m hm).1
  have hconsolidated : ∀ m ∈ consolidated, m.reason = .consolidate :=
    fun m hm => (hphases.empties m hm).1
  refine ⟨List.forall_mem_append.mpr ⟨fun m hm m' hm' heq => ?_, hphases.disjoint⟩,
    List.forall_mem_append.mpr ⟨fun m hm _ => (hphases.relieves m hm).2, fun m hm heq => ?_⟩,
    List.forall_mem_append.mpr ⟨fun m hm heq => ?_, fun m hm _ => (hphases.empties m hm).2⟩,
    hphases.spares, distributed, consolidated, rfl, hdistributed, hconsolidated⟩
  · -- A host has one status, and that of a target is another one.
    obtain ⟨status, hstatus, hne⟩ := hphases.spares m' hm'
    rw [← heq, (hphases.relieves m hm).2, Except.ok.injEq] at hstatus
    exact hne hstatus.symm
  · rw [hconsolidated m hm] at heq
    cases heq
  · rw [hdistributed m hm] at heq
    cases heq

/-- A crowded host, two hosts that can be emptied, one that takes all VMs, and an idle one. A VM is
on its way already. -/
def mixedRun : List (Pool.Op α) :=
  let host : HostSpec α := ⟨"host", 4, 1000.0, 8192, 1000, 100000, .linear 200.0 0.5⟩
  let vm (mips : α) : VmSpec α := ⟨"tenant", 2, mips, 1024, 100, 1000⟩
  [.addHost host, .addHost host, .addHost host, .addHost host, .addHost host, .addVm (vm 500.0),
    .addVm (vm 500.4), .addVm (vm 750.0), .addVm (vm 250.0), .addVm (vm 100.0), .addVm (vm 400.0),
    .addVm (vm 0.1), .allocate 0 0, .allocate 1 0, .allocate 2 0, .allocate 3 1, .allocate 4 2,
    .allocate 5 4, .allocate 6 4, .startMigration 6 2]

/-- Keeps utilization between three and eight tenths. -/
def mixedPolicy : SingleThreshold α := .ofThresholds ⟨0.8, 0.3⟩

theorem mixedRun_roles : ∃ (pool : Pool Float) (plan : List (Migration Float))
    (policy : SingleThreshold Float),
    Pool.empty.run mixedRun = .ok pool ∧ pool.Reachable
    ∧ (AllocationPolicy.optimize mixedPolicy pool (.ofLength 3) 7).result = .ok (plan, policy)
    ∧ plan.map (fun m => (m.vm, m.source, m.target, m.reason))
      = [(0, 0, 2, .distribute), (3, 1, 2, .consolidate), (5, 4, 2, .consolidate)]
    ∧ (∀ m ∈ plan, ∀ m' ∈ plan, m.source ≠ m'.target)
    ∧ (∀ m ∈ plan, m.reason = .distribute →
      mixedPolicy.thresholds.statusOf pool (.ofLength 3) m.source = .ok .overloaded)
    ∧ ∀ m ∈ plan, m.reason = .consolidate →
      mixedPolicy.thresholds.statusOf pool (.ofLength 3) m.source = .ok .underloaded := by
  have hrun : (Pool.empty.run (mixedRun : List (Pool.Op Float))).toOption.any (fun pool =>
      (AllocationPolicy.optimize (mixedPolicy : SingleThreshold Float) pool (.ofLength 3)
        7).result.toOption.any fun r =>
          r.1.map (fun m => (m.vm, m.source, m.target, m.reason))
            == [(0, 0, 2, .distribute), (3, 1, 2, .consolidate), (5, 4, 2, .consolidate)])
      = true := by
    decide +kernel
  obtain ⟨pool, hp, htest⟩ := Checked.eq_ok_of_any hrun
  obtain ⟨⟨plan, policy⟩, hoptimize, hmoves⟩ := Checked.eq_ok_of_any htest
  have hr := Pool.reachable_of_run hp
  obtain ⟨hdisjoint, hdistribute, hconsolidate, -⟩ := roles_disjoint hr hoptimize
  exact ⟨pool, plan, policy, hp, hr, hoptimize, beq_iff_eq.mp hmoves, hdisjoint, hdistribute,
    fun m hm heq => (hconsolidate m hm heq).2.1⟩

end SingleThreshold

end Datacenter
