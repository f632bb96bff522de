import Datacenter.Proofs.Offers
import Datacenter.Proofs.Waiting
import Datacenter.Simulation.Start

/-!
# Starting from a configuration

Hosts and VMs are created group by group, and each gets the next id. If all names of a configuration
can be resolved and the ids suffice, nothing stands in the way: adding a host succeeds, a submitted
VM is placed or waits, and what came before stays as it is.

Main statements: `Filled.addHost`, `Filled.submitVm` and `validated_config_starts`.
-/

namespace Datacenter

/-! ### Acting on items that all succeed -/

/-- If each of the items can be acted on after those before it, all of them can be acted on. -/
theorem Logged.fold_eq_ok {α β γ : Type} {P : β → List γ → Prop} {act : β → γ → Logged α β}
    {state : β} {items : List γ} (hstart : P state [])
    (hact : ∀ state done item rest, done ++ item :: rest = items → P state done →
      ∃ next, (act state item).result = .ok next ∧ P next (done ++ [item])) :
    ∃ last, (Logged.fold act state items).result = .ok last ∧ P last items := by
  suffices hrest : ∀ (rest done : List γ) (state : β), done ++ rest = items → P state done →
      ∃ last, (rest.foldlM act state).result = .ok last ∧ P last items by
    rw [fold_eq_foldlM]
    exact hrest items [] state rfl hstart
  intro rest
  induction rest with
  | nil =>
    intro done state hitems hdone
    rw [List.append_nil] at hitems
    exact ⟨state, rfl, hitems ▸ hdone⟩
  | cons item rest ih =>
    intro done state hitems hdone
    obtain ⟨next, hnext, hmore⟩ := hact state done item rest hitems hdone
    obtain ⟨last, hlast, hall⟩ := ih (done ++ [item]) next (by simp [hitems]) hmore
    rw [List.foldlM_cons, Logged.result_bind, hnext, Checked.ok_bind]
    exact ⟨last, hlast, hall⟩

theorem Pool.Reachable.change {α : Type} [Scalar α] {pool pool' : Pool α} {op : Pool.Op α}
    (hr : pool.Reachable) (h : Pool.Change op pool pool') : pool'.Reachable := by
  have hsteps : Pool.Steps (fun _ => True) pool pool' := .of_change h trivial
  exact hsteps.reachable hr

/-! ### Hosts and VMs in order -/

theorem getElem?_append_singleton {β : Type} (l : List β) (x : β) (i : Nat) :
    (l ++ [x])[i]? = if i = l.length then some x else l[i]? := by
  grind

namespace Pool

variable {α : Type} [Scalar α] {pool pool' : Pool α} {hosts : List (HostSpec α)}
  {vms : List (VmSpec α)}

/-- The hosts and VMs have these specifications, numbered from zero on in their order, and no VM
moves. -/
structure Listed (pool : Pool α) (hosts : List (HostSpec α)) (vms : List (VmSpec α)) : Prop where
  reachable : pool.Reachable
  hostIds : pool.hosts.keys = List.range hosts.length
  vmIds : pool.vms.keys = List.range vms.length
  nextHost : pool.nextHost = hosts.length
  nextVm : pool.nextVm = vms.length
  host : ∀ g, (pool.hosts.get? g).map (·.toHostSpec) = hosts[g]?
  vm : ∀ v, (pool.vms.get? v).map (·.toVmSpec) = vms[v]?
  still : ∀ v p, pool.placement v = some p → p.target = none

namespace Listed

theorem empty : (Pool.empty : Pool α).Listed [] [] where
  reachable := .refl _
  hostIds := rfl
  vmIds := rfl
  nextHost := rfl
  nextVm := rfl
  host _ := rfl
  vm _ := rfl
  still _ _ hp := by cases hp

theorem addHost (h : pool.Listed hosts vms) {spec : HostSpec α} {g : HostId}
    (hadd : pool.addHost spec = .ok (g, pool')) : pool'.Listed (hosts ++ [spec]) vms := by
  have hreachable := h.reachable.change (.addHost hadd)
  obtain ⟨-, rfl, rfl⟩ := (addHost_eq_ok_iff _ _ _ _).mp hadd
  refine ⟨hreachable, ?_, h.vmIds, ?_, h.nextVm, fun g => ?_, h.vm, h.still⟩
  · have hnew : hosts.length ∉ List.range hosts.length := by simp
    rw [Table.keys_insert, h.hostIds, h.nextHost, if_neg hnew, List.length_append,
      List.length_singleton, List.range_succ]
  · rw [h.nextHost, List.length_append, List.length_singleton]
  · rw [Table.get?_insert, h.nextHost, getElem?_append_singleton, ← h.host g]
    split
    · rfl
    · rfl

theorem addVm (h : pool.Listed hosts vms) {spec : VmSpec α} {v : VmId}
    (hadd : pool.addVm spec = .ok (v, pool')) : pool'.Listed hosts (vms ++ [spec]) := by
  have hreachable := h.reachable.change (.addVm hadd)
  obtain ⟨-, rfl, rfl⟩ := (addVm_eq_ok_iff _ _ _ _).mp hadd
  refine ⟨hreachable, h.hostIds, ?_, h.nextHost, ?_, h.host, fun w => ?_, fun w p hp => ?_⟩
  · have hnew : vms.length ∉ List.range vms.length := by simp
    rw [Table.keys_insert, h.vmIds, h.nextVm, if_neg hnew, List.length_append,
      List.length_singleton, List.range_succ]
  · rw [h.nextVm, List.length_append, List.length_singleton]
  · rw [Table.get?_insert, h.nextVm, getElem?_append_singleton, ← h.vm w]
    split
    · rfl
    · rfl
  · rw [placement, Table.get?_insert] at hp
    split at hp
    · cases hp
      rfl
    · exact h.still w p hp

theorem allocate (h : pool.Listed hosts vms) {v : VmId} {g : HostId}
    (hdone : pool.allocate v g = .done pool') : pool'.Listed hosts vms := by
  have hreachable := h.reachable.change (.allocate hdone)
  obtain ⟨-, hplaced⟩ := allocate_placement h.reachable.ownership hdone
  obtain ⟨vm, host, host', hv, -, hg, hadmit, rfl⟩ := (allocate_eq_done_iff _ _ _ _).mp hdone
  obtain ⟨-, -, -, total, -, rfl⟩ := (Host.allocate_eq_done_iff _ _ _ _).mp hadmit
  have hhost : g ∈ pool.hosts.keys := (Table.mem_keys_iff _ _).mpr ⟨host, hg⟩
  have hvm : v ∈ pool.vms.keys := (Table.mem_keys_iff _ _).mpr ⟨vm, hv⟩
  refine ⟨hreachable, ?_, ?_, h.nextHost, h.nextVm, fun f => ?_, fun w => ?_, fun w p hp => ?_⟩
  · rw [hosts_withVm, hosts_withHost, Table.keys_insert, if_pos hhost, h.hostIds]
  · rw [vms_withVm, vms_withHost, Table.keys_insert, if_pos hvm, h.vmIds]
  · rw [hosts_withVm, hosts_withHost, Table.get?_insert, ← h.host f]
    split
    · rename_i hf
      rw [hf, hg]
      rfl
    · rfl
  · rw [vms_withVm, vms_withHost, Table.get?_insert, ← h.vm w]
    split
    · rename_i hw
      rw [hw, hv]
      rfl
    · rfl
  · rw [hplaced] at hp
    split at hp
    · cases hp
      rfl
    · exact h.still w p hp

theorem placement_eq (h : pool.Listed hosts vms) {v : VmId} (hv : v < vms.length) :
    pool.placement v = some .unplaced
      ∨ ∃ g ∈ pool.hosts.keys, pool.placement v = some ⟨some g, none⟩ := by
  have hknown : v ∈ pool.vms.keys := by
    rw [h.vmIds]
    exact List.mem_range.mpr hv
  obtain ⟨vm, hget⟩ := (Table.mem_keys_iff _ _).mp hknown
  have hp := placement_of_get? hget
  have htarget : vm.migrationTarget = none := h.still v _ hp
  rw [htarget] at hp
  cases hhost : vm.host with
  | none =>
    rw [hhost] at hp
    exact .inl hp
  | some g =>
    obtain ⟨host, hg⟩ := h.reachable.ownership.exists_host hget hhost
    rw [hhost] at hp
    exact .inr ⟨g, (Table.mem_keys_iff _ _).mpr ⟨host, hg⟩, hp⟩

theorem runs?_eq_some_false_iff (h : pool.Listed hosts vms) {v : VmId} (hv : v < vms.length) :
    pool.runs? v = some false ↔ pool.placement v = some .unplaced := by
  rw [runs?_eq]
  rcases h.placement_eq hv with hp | ⟨g, -, hp⟩
  · simp [hp, Placement.unplaced]
  · simp [hp, Placement.unplaced]

end Listed

end Pool

namespace Simulation

variable {α π : Type} [Scalar α] [AllocationPolicy α π] {sim sim' : Simulation α π}

theorem placeVm_eq_ok [AlwaysSelects α π] (hr : sim.pool.Reachable) (v : VmId) :
    ∃ answer sim', (sim.placeVm v).result = .ok (answer, sim') := by
  have hsettled := AllocationPolicy.place_isSettled sim.policy hr v
  rw [placeVm]
  cases hplace : AllocationPolicy.place sim.policy sim.pool v with
  | done r => exact ⟨_, _, rfl⟩
  | refused error => exact ⟨_, _, rfl⟩
  | fault e => exact absurd hplace (hsettled e)

theorem submitVm_eq_ok [AlwaysSelects α π] (hr : sim.pool.Reachable)
    (hfew : sim.pool.nextVm + 1 < UInt32.size) (spec : VmSpec α) :
    ∃ sim', (sim.submitVm spec).result = .ok (sim.pool.nextVm, sim') := by
  have hadd := (Pool.addVm_eq_ok_iff sim.pool _ spec sim.pool.nextVm).mpr ⟨hfew, rfl, rfl⟩
  obtain ⟨answer, next, hplace⟩ : ∃ answer next, (placeVm { sim with pool := _ }
      sim.pool.nextVm).result = .ok (answer, next) :=
    placeVm_eq_ok (hr.change (.addVm hadd)) sim.pool.nextVm
  simp only [submitVm, Logged.result_bind, Logged.result_lift, hadd, Checked.ok_bind, hplace]
  cases answer with
  | ok h => exact ⟨next, rfl⟩
  | error error => exact ⟨_, rfl⟩

/-! ### Hosts and VMs of a simulation -/

/-- The hosts and VMs are listed, and those VMs that run nowhere wait, in order of their ids. -/
structure Filled (sim : Simulation α π) (hosts : List (HostSpec α)) (vms : List (VmSpec α)) :
    Prop where
  listed : sim.pool.Listed hosts vms
  pending : sim.pending.toList
    = (List.range vms.length).filter fun v => sim.pool.runs? v = some false

namespace Filled

variable {hosts : List (HostSpec α)} {vms : List (VmSpec α)}

omit [AllocationPolicy α π] in
theorem create (config : Config α) (policy : π) (id : Nat) :
    (create config policy id).Filled [] [] := ⟨.empty, rfl⟩

omit [AllocationPolicy α π] in
theorem waits (h : sim.Filled hosts vms) : Waits (fun _ => False) sim where
  nodup := h.pending ▸ List.nodup_range.filter _
  idle v hv := by
    rw [h.pending, List.mem_filter, decide_eq_true_eq] at hv
    exact .inl hv.2

omit [AllocationPolicy α π] in
theorem addHost (h : sim.Filled hosts vms) (hfew : hosts.length + 1 < UInt32.size)
    (spec : HostSpec α) :
    ∃ sim', (sim.addHost spec).result = .ok (hosts.length, sim')
      ∧ sim'.Filled (hosts ++ [spec]) vms := by
  have hadd := (Pool.addHost_eq_ok_iff sim.pool _ spec hosts.length).mpr
    ⟨h.listed.nextHost ▸ hfew, h.listed.nextHost.symm, rfl⟩
  have hlisted := h.listed.addHost hadd
  simp only [Simulation.addHost, Logged.result_bind, Logged.result_lift, hadd, Checked.ok_bind]
  exact ⟨_, rfl, hlisted, h.pending⟩

/-- A submitted VM is placed or waits, and the others stay as they are. -/
theorem submitVm [AlwaysSelects α π] (h : sim.Filled hosts vms)
    (hfew : vms.length + 1 < UInt32.size) (spec : VmSpec α) :
    ∃ sim', (sim.submitVm spec).result = .ok (vms.length, sim')
      ∧ sim'.Filled hosts (vms ++ [spec]) := by
  obtain ⟨sim', hsubmit⟩ := submitVm_eq_ok h.listed.reachable (h.listed.nextVm ▸ hfew) spec
  rw [h.listed.nextVm] at hsubmit
  refine ⟨sim', hsubmit, ?_⟩
  obtain ⟨hqueue, -⟩ := h.waits.submitVm h.listed.reachable.ownership hsubmit
  obtain ⟨pool, hadd, hcases⟩ := submitVm_cases hsubmit
  have hlisted := h.listed.addVm hadd
  obtain ⟨-, hadded⟩ := Pool.addVm_runs? hadd
  obtain ⟨hlisted', hothers⟩ : sim'.pool.Listed hosts (vms ++ [spec])
      ∧ ∀ w, w ≠ vms.length → sim'.pool.runs? w = sim.pool.runs? w := by
    rcases hcases with rfl | ⟨host, pool', hallocate, rfl⟩
    · exact ⟨hlisted, fun w hw => (hadded w).trans (if_neg hw)⟩
    · obtain ⟨-, hplaced⟩ := Pool.allocate_runs? hlisted.reachable.ownership hallocate
      refine ⟨hlisted.allocate hallocate, fun w hw => ?_⟩
      rw [pool_meterPower, hplaced, if_neg hw, hadded, if_neg hw]
  refine ⟨hlisted', ?_⟩
  -- The new VM has the largest id, so it belongs to the end of the queue if it waits at all.
  rw [hqueue, queueAfter, h.pending, h.listed.nextVm, List.length_append, List.length_singleton,
    List.range_succ, List.filter_append]
  congr 1
  refine List.filter_congr fun w hw => ?_
  rw [hothers w (List.mem_range.mp hw).ne]

end Filled

end Simulation

/-! ### Names that can be resolved -/

theorem discard_eq_ok_iff {ε β : Type} (x : Except ε β) : discard x = .ok () ↔ ∃ y, x = .ok y := by
  cases x with
  | error e =>
    constructor
    · intro h
      cases h
    · rintro ⟨y, hy⟩
      cases hy
  | ok y => exact ⟨fun _ => ⟨y, rfl⟩, fun _ => rfl⟩

theorem forM_discard_eq_ok_iff {ε β γ : Type} (f : β → Except ε γ) (l : List β) :
    (l.forM fun x => discard (f x)) = .ok () ↔ ∀ x ∈ l, ∃ y, f x = .ok y := by
  induction l with
  | nil => exact ⟨fun _ _ hx => absurd hx List.not_mem_nil, fun _ => rfl⟩
  | cons x rest ih =>
    have hcons : ((x :: rest).forM fun x => discard (f x))
        = discard (f x) >>= fun _ => rest.forM fun x => discard (f x) := rfl
    rw [List.forall_mem_cons, ← ih, ← discard_eq_ok_iff, hcons]
    cases discard (f x) with
    | error e => simp [bind, Except.bind]
    | ok y => simp [bind, Except.bind]

/-! ### The specifications in a configuration -/

/-- The hosts of a group, whose power model can be resolved. -/
def HostGroup.specs {α : Type} [Scalar α] (group : HostGroup α) (models : PowerModelRegistry α) :
    List (HostSpec α) :=
  match group.resolveModel models with
  | .ok model => (List.range group.count).map (group.spec model)
  | .error _ => []

def VmGroup.specs {α : Type} (group : VmGroup α) : List (VmSpec α) :=
  List.replicate group.count group.spec

theorem VmGroup.length_specs {α : Type} (group : VmGroup α) : group.specs.length = group.count :=
  List.length_replicate

namespace Config

variable {α : Type} [Scalar α]

def hostSpecs (config : Config α) (models : PowerModelRegistry α) : List (HostSpec α) :=
  config.hosts.flatMap fun group => group.specs models

omit [Scalar α] in
def vmSpecs (config : Config α) : List (VmSpec α) := config.vms.flatMap VmGroup.specs

omit [Scalar α] in
theorem length_vmSpecs (config : Config α) :
    config.vmSpecs.length = (config.vms.map (·.count)).sum := by
  simp only [vmSpecs, List.length_flatMap, VmGroup.length_specs]

/-- The hosts of each group are numbered from one on. -/
theorem names_hostSpecs {config : Config α} {models : PowerModelRegistry α}
    (hmodels : ∀ group ∈ config.hosts, ∃ model, group.resolveModel models = .ok model) :
    (config.hostSpecs models).map (·.name) = config.hosts.flatMap fun group =>
      (List.range group.count).map fun index => group.name ++ toString (index + 1) := by
  rw [hostSpecs, List.map_flatMap]
  refine List.flatMap_congr fun group hgroup => ?_
  obtain ⟨model, hmodel⟩ := hmodels group hgroup
  rw [HostGroup.specs, hmodel, List.map_map]
  rfl

theorem length_hostSpecs {config : Config α} {models : PowerModelRegistry α}
    (hmodels : ∀ group ∈ config.hosts, ∃ model, group.resolveModel models = .ok model) :
    (config.hostSpecs models).length = (config.hosts.map (·.count)).sum := by
  have hnames := congrArg List.length (names_hostSpecs hmodels)
  simpa [List.length_flatMap] using hnames

/-- A configuration is validated if each group has a power model and there is a policy. -/
theorem validate_eq_ok_iff {π : Type} (config : Config Float) (models : PowerModelRegistry Float)
    (policies : PolicyRegistry Float π) :
    config.validate models policies = .ok () ↔
      (∀ group ∈ config.hosts, ∃ model, group.resolveModel models = .ok model)
        ∧ ∃ policy, config.resolvePolicy policies = .ok policy := by
  rw [← forM_discard_eq_ok_iff, ← discard_eq_ok_iff, validate]
  cases config.hosts.forM fun group => discard (group.resolveModel models) with
  | error e => simp [bind, Except.bind]
  | ok _ => simp [bind, Except.bind]

end Config

/-! ### From a configuration to a simulation -/

namespace Simulation

section groups

variable {α π : Type} [Scalar α] {sim : Simulation α π} {hosts : List (HostSpec α)}
  {vms : List (VmSpec α)}

theorem Filled.addHosts (h : sim.Filled hosts vms) (spec : Nat → HostSpec α) (count : Nat)
    (hfew : hosts.length + count < UInt32.size) :
    ∃ sim', (Logged.fold (fun sim index => Prod.snd <$> sim.addHost (spec index)) sim
        (List.range count)).result = .ok sim'
      ∧ sim'.Filled (hosts ++ (List.range count).map spec) vms := by
  refine Logged.fold_eq_ok
    (P := fun (state : Simulation α π) done => state.Filled (hosts ++ done.map spec) vms)
    (by rwa [List.map_nil, List.append_nil]) ?_
  intro state done index rest hall hstate
  have hlength := congrArg List.length hall
  simp only [List.length_append, List.length_cons, List.length_range] at hlength
  have hroom : (hosts ++ done.map spec).length + 1 < UInt32.size := by
    rw [List.length_append, List.length_map]
    omega
  obtain ⟨next, hnext, hfilled⟩ := hstate.addHost hroom (spec index)
  rw [List.append_assoc] at hfilled
  exact ⟨next, Logged.result_map_of_ok Prod.snd hnext, by rwa [List.map_append]⟩

theorem Filled.addHostGroups (models : PowerModelRegistry α) (groups : List (HostGroup α))
    (hmodels : ∀ group ∈ groups, ∃ model, group.resolveModel models = .ok model)
    (h : sim.Filled hosts vms)
    (hfew : hosts.length + (groups.map (·.count)).sum < UInt32.size) :
    ∃ sim', (sim.addHostGroups models groups).result = .ok (.ok sim')
      ∧ sim'.Filled (hosts ++ groups.flatMap fun group => group.specs models) vms := by
  induction groups generalizing sim hosts with
  | nil =>
    rw [List.flatMap_nil, List.append_nil]
    exact ⟨sim, rfl, h⟩
  | cons group rest ih =>
    obtain ⟨⟨model, hmodel⟩, hmodels⟩ := List.forall_mem_cons.mp hmodels
    have hspecs : group.specs models = (List.range group.count).map (group.spec model) := by
      rw [HostGroup.specs, hmodel]
    rw [List.map_cons, List.sum_cons] at hfew
    rw [List.flatMap_cons, hspecs, ← List.append_assoc, Simulation.addHostGroups]
    split
    · rename_i hcount
      rw [hcount, List.range_zero, List.map_nil, List.append_nil]
      exact ih hmodels h (by omega)
    · obtain ⟨next, hnext, hfilled⟩ := h.addHosts (group.spec model) group.count
        (by omega)
      rw [hmodel, Logged.result_bind, hnext, Checked.ok_bind]
      refine ih hmodels hfilled ?_
      rw [List.length_append, List.length_map, List.length_range]
      omega

variable [AllocationPolicy α π] [AlwaysSelects α π]

theorem Filled.submitVmGroup (h : sim.Filled hosts vms) (group : VmGroup α)
    (hfew : vms.length + group.count < UInt32.size) :
    ∃ sim', (sim.submitVmGroup group).result = .ok sim'
      ∧ sim'.Filled hosts (vms ++ group.specs) := by
  refine Logged.fold_eq_ok
    (P := fun (state : Simulation α π) done => state.Filled hosts (vms ++ done))
    (by rwa [List.append_nil]) ?_
  intro state done spec rest hall hstate
  have hlength := congrArg List.length hall
  simp only [List.length_append, List.length_cons, List.length_replicate] at hlength
  have hroom : (vms ++ done).length + 1 < UInt32.size := by
    rw [List.length_append]
    omega
  obtain ⟨next, hnext, hfilled⟩ := hstate.submitVm hroom spec
  rw [List.append_assoc] at hfilled
  exact ⟨next, Logged.result_map_of_ok Prod.snd hnext, hfilled⟩

theorem Filled.submitVmGroups (h : sim.Filled hosts vms) (groups : List (VmGroup α))
    (hfew : vms.length + (groups.map (·.count)).sum < UInt32.size) :
    ∃ sim', (Logged.fold Simulation.submitVmGroup sim groups).result = .ok sim'
      ∧ sim'.Filled hosts (vms ++ groups.flatMap VmGroup.specs) := by
  refine Logged.fold_eq_ok
    (P := fun (state : Simulation α π) done =>
      state.Filled hosts (vms ++ done.flatMap VmGroup.specs))
    (by rwa [List.flatMap_nil, List.append_nil]) ?_
  intro state done group rest hall hstate
  have hroom : (vms ++ done.flatMap VmGroup.specs).length + group.count < UInt32.size := by
    rw [← hall, List.map_append, List.map_cons, List.sum_append, List.sum_cons] at hfew
    rw [List.length_append, List.length_flatMap]
    simp only [VmGroup.length_specs]
    omega
  obtain ⟨next, hnext, hfilled⟩ := hstate.submitVmGroup group hroom
  rw [List.append_assoc] at hfilled
  refine ⟨next, hnext, ?_⟩
  rwa [List.flatMap_append, List.flatMap_singleton]

end groups

/-- The simulation has the hosts and VMs of the configuration, in its order and numbered from zero
on. Each VM runs on a host, or waits, in order of the ids. -/
structure Begins {α π : Type} [Scalar α] (sim : Simulation α π) (config : Config α)
    (models : PowerModelRegistry α) : Prop where
  hostIds : sim.pool.hosts.keys = List.range (config.hosts.map (·.count)).sum
  vmIds : sim.pool.vms.keys = List.range (config.vms.map (·.count)).sum
  host : ∀ g, (sim.pool.hosts.get? g).map (·.toHostSpec) = (config.hostSpecs models)[g]?
  hostName : ∀ g, (sim.pool.hosts.get? g).map (·.name) = (config.hosts.flatMap fun group =>
    (List.range group.count).map fun index => group.name ++ toString (index + 1))[g]?
  vm : ∀ v, (sim.pool.vms.get? v).map (·.toVmSpec) = config.vmSpecs[v]?
  placement : ∀ v ∈ sim.pool.vms.keys, sim.pool.placement v = some .unplaced
    ∨ ∃ g ∈ sim.pool.hosts.keys, sim.pool.placement v = some ⟨some g, none⟩
  pending : sim.pending.toList
    = sim.pool.vms.keys.filter fun v => sim.pool.placement v = some .unplaced

theorem Filled.begins {α π : Type} [Scalar α] {sim : Simulation α π} {config : Config α}
    {models : PowerModelRegistry α}
    (h : sim.Filled (config.hostSpecs models) config.vmSpecs)
    (hmodels : ∀ group ∈ config.hosts, ∃ model, group.resolveModel models = .ok model) :
    sim.Begins config models where
  hostIds := Config.length_hostSpecs hmodels ▸ h.listed.hostIds
  vmIds := config.length_vmSpecs ▸ h.listed.vmIds
  host := h.listed.host
  hostName g := by
    rw [← Config.names_hostSpecs hmodels, List.getElem?_map, ← h.listed.host g, Option.map_map]
    rfl
  vm := h.listed.vm
  placement v hv := by
    rw [h.listed.vmIds, List.mem_range] at hv
    exact h.listed.placement_eq hv
  pending := by
    rw [h.pending, h.listed.vmIds]
    refine List.filter_congr fun v hv => ?_
    rw [decide_eq_decide]
    exact h.listed.runs?_eq_some_false_iff (List.mem_range.mp hv)

/-- If all names of a configuration can be resolved and it has less hosts and VMs than there are
ids, a simulation with all of them begins. -/
theorem validated_config_starts {π : Type} [AllocationPolicy Float π] [AlwaysSelects Float π]
    (config : Config Float) (id : Nat) (models : PowerModelRegistry Float)
    (policies : PolicyRegistry Float π) (hvalid : config.validate models policies = .ok ())
    (hhosts : (config.hosts.map (·.count)).sum < UInt32.size)
    (hvms : (config.vms.map (·.count)).sum < UInt32.size) :
    ∃ sim, (ofConfig config id models policies).result = .ok (.ok sim)
      ∧ sim.Begins config models := by
  obtain ⟨hmodels, policy, hpolicy⟩ := (Config.validate_eq_ok_iff _ _ _).mp hvalid
  obtain ⟨hosted, hadd, hfilled⟩ := (Filled.create config policy id).addHostGroups models
    config.hosts hmodels (by rwa [List.length_nil, Nat.zero_add])
  obtain ⟨sim, hsubmit, hfilled⟩ := hfilled.submitVmGroups config.vms
    (by rwa [List.length_nil, Nat.zero_add])
  refine ⟨sim, ?_, hfilled.begins hmodels⟩
  simp only [ofConfig, hpolicy, Logged.result_bind, hadd, Checked.ok_bind, hsubmit]
  rfl

/-- Two hosts that compute slowly, none of a second group, and a fast one. -/
def unevenConfig : Config Float where
  name := "uneven"
  policy := "SingleThreshold[upper=0.9]"
  thresholds := ⟨0.8, 0.3⟩
  stepInterval := 30
  monitoringInterval := 180
  historyLength := 2
  migrates := true
  migrationOverhead := 10
  hosts := [⟨some "slow", some 2, 1, 1000, 4096, 1000, 100000, 200, none, none⟩,
    ⟨none, some 0, 2, 1000, 8192, 1000, 100000, 300, none, some "Cubic"⟩,
    ⟨none, none, 4, 2000, 16384, 1000, 100000, 400, some 0.5, some "Square"⟩]
  vms := [⟨some "tenant", some 2, none, 800, 1024, none, none⟩,
    ⟨none, some 2, some 2, 3500, 1024, none, none⟩, ⟨none, none, none, 50, 1024, none, none⟩]

/-- The second VM of the second group finds no host, the one after it does. -/
theorem unevenConfig_starts : ∃ sim,
    (ofConfig unevenConfig 7 .builtIn .builtIn).result = .ok (.ok sim)
      ∧ sim.Begins unevenConfig .builtIn ∧ sim.pending.toList = [3]
      ∧ (sim.pool.hosts.values.map fun host => host.name) = ["slow1", "slow2", "host1"] := by
  have hnames : (unevenConfig.validate .builtIn .builtIn).toOption = some () := by decide +kernel
  have hvalid : unevenConfig.validate .builtIn .builtIn = .ok () := by
    cases h : unevenConfig.validate .builtIn .builtIn with
    | error e =>
      rw [h] at hnames
      cases hnames
    | ok _ => rfl
  obtain ⟨sim, hsim, hbegins⟩ := validated_config_starts unevenConfig 7 .builtIn .builtIn hvalid
    (by decide +kernel) (by decide +kernel)
  have hrun : ((ofConfig unevenConfig 7 .builtIn .builtIn).result.toOption.any fun answer =>
      answer.toOption.any fun sim => sim.pending.toList == [3]
        && (sim.pool.hosts.values.map fun host => host.name) == ["slow1", "slow2", "host1"])
      = true := by
    decide +kernel
  rw [hsim, Except.toOption, Option.any_some, Except.toOption, Option.any_some, Bool.and_eq_true,
    beq_iff_eq, beq_iff_eq] at hrun
  exact ⟨sim, hsim, hbegins, hrun⟩

end Simulation

end Datacenter
