import Datacenter.Proofs.Admissions
import Datacenter.Proofs.ExactTotals
import Datacenter.Proofs.Destinations
import Datacenter.Proofs.Restoring

/-!
# Putting VMs back

While VMs are put back where they were saved, each VM is on its saved hosts or on none. So no host
has more than it had, in each amount that VMs ask for as they did. Whatever else holds of the pools
on the way, an entry can be refused for nothing but a shortage, in a dimension in which VMs may ask
for more by now.

Main statements: `Recalls.allocated_le` and `PutsBack.restoreEntries`.
-/

namespace Datacenter

/-! ### Placements on the way back -/

namespace Placement

variable {p q : Placement}

/-- Where the placement names a host, the other one names the same. -/
structure Within (p q : Placement) : Prop where
  host : p.host = none ∨ p.host = q.host
  target : p.target = none ∨ p.target = q.target

theorem Within.refl (p : Placement) : p.Within p := ⟨.inr rfl, .inr rfl⟩

theorem Within.without (h : p.Within q) (g : HostId) : (p.without g).Within q := by
  rw [Placement.without]
  split
  · exact ⟨.inl rfl, .inl rfl⟩
  · split
    · exact ⟨h.host, .inl rfl⟩
    · exact h

theorem Within.foldl_without (h : p.Within q) (hosts : List HostId) :
    (hosts.foldl Placement.without p).Within q := by
  induction hosts generalizing p with
  | nil => exact h
  | cons g hosts ih => exact ih (h.without g)

theorem Within.host_eq (h : p.Within q) {g : HostId} (hp : p.host = some g) : q.host = some g := by
  rcases h.host with hn | he
  · rw [hn] at hp
    cases hp
  · exact he ▸ hp

theorem Within.target_eq (h : p.Within q) {g : HostId} (hp : p.target = some g) :
    q.target = some g := by
  rcases h.target with hn | he
  · rw [hn] at hp
    cases hp
  · exact he ▸ hp

theorem not_isAround_foldl_without {hosts : List HostId} {g : HostId} (hg : g ∈ hosts)
    (p : Placement) : ¬(hosts.foldl without p).IsAround g := by
  rw [foldl_without]
  split
  · rintro (h | h)
    · cases h
    · cases h
  · rename_i hruns
    split
    · rintro (h | h)
      · exact hruns ⟨g, hg, h⟩
      · cases h
    · rename_i hmoves
      rintro (h | h)
      · exact hruns ⟨g, hg, h⟩
      · exact hmoves ⟨g, hg, h⟩

end Placement

namespace Pool

variable {α : Type} [Scalar α] {saved pool : Pool α}

/-! ### What hosts have on the way back -/

section

variable {M : Type} [AddCommMonoid M] [PartialOrder M] [IsOrderedAddMonoid M]
  {f : Resources α → M} {g : HostId} {place place' : VmId → Vm α → Option HostId}

/-- If all that counts in a pool counted as much in the saved one, it is not more. -/
theorem sumAt_le (hf : ∀ v vm, saved.vms.get? v = some vm → 0 ≤ f vm.demand)
    (hback : ∀ v vm', pool.vms.get? v = some vm' → place v vm' = some g →
      ∃ vm, saved.vms.get? v = some vm ∧ place' v vm = some g ∧ f vm'.demand = f vm.demand) :
    pool.sumAt f place g ≤ saved.sumAt f place' g := by
  refine Table.total_le_total (fun v vm hv => ?_) fun v vm' hv' => ?_
  · split
    · exact hf v vm hv
    · exact le_refl 0
  · by_cases hcounts : place v vm' = some g
    · obtain ⟨vm, hv, hcounted, hdemand⟩ := hback v vm' hv' hcounts
      exact .inr ⟨vm, hv, by rw [if_pos hcounts, if_pos hcounted, hdemand]⟩
    · exact .inl (by rw [if_neg hcounts])

/-- The same with a VM that does not count yet, and counted in the saved pool. -/
theorem sumAt_add_le (hf : ∀ v vm, saved.vms.get? v = some vm → 0 ≤ f vm.demand) {v : VmId}
    {vm' : Vm α} (hv' : pool.vms.get? v = some vm') (hnone : place v vm' ≠ some g)
    (hback : ∃ vm, saved.vms.get? v = some vm ∧ place' v vm = some g ∧ f vm'.demand = f vm.demand)
    (hrest : ∀ w r', pool.vms.get? w = some r' → place w r' = some g →
      ∃ r, saved.vms.get? w = some r ∧ place' w r = some g ∧ f r'.demand = f r.demand) :
    pool.sumAt f place g + f vm'.demand ≤ saved.sumAt f place' g := by
  let moved (w : VmId) (r : Vm α) : Option HostId := if w = v then some g else place w r
  have hsum : pool.sumAt f moved g = pool.sumAt f place g + f vm'.demand := by
    have hother : ∀ w r, w ≠ v → moved w r = place w r := fun w r hw => if_neg hw
    have hchange := sumAt_change f hv' hother g
    have hnow : moved v vm' = some g := if_pos rfl
    rwa [if_neg hnone, if_pos hnow, add_zero] at hchange
  rw [← hsum]
  refine sumAt_le hf fun w r' hw hmoved => ?_
  by_cases heq : w = v
  · subst heq
    rw [hv', Option.some.injEq] at hw
    exact hw ▸ hback
  · exact hrest w r' hw ((if_neg heq).symm.trans hmoved)

/-- Where a VM of the pool is, it was in the saved one, and VMs that were there take as much. -/
structure Recalls (saved pool : Pool α) (f : Resources α → M) : Prop where
  within : ∀ v p, pool.placement v = some p → p.Within ((saved.placement v).getD .unplaced)
  demand : ∀ v vm vm', saved.vms.get? v = some vm → pool.vms.get? v = some vm' →
    f vm'.demand = f vm.demand

namespace Recalls

variable (hr : Recalls saved pool f)

include hr

omit [AddCommMonoid M] [PartialOrder M] [IsOrderedAddMonoid M] in
theorem host_back {v : VmId} {vm' : Vm α} (hv' : pool.vms.get? v = some vm')
    (hg : vm'.host = some g) :
    ∃ vm, saved.vms.get? v = some vm ∧ vm.host = some g ∧ f vm'.demand = f vm.demand := by
  have hback := (hr.within v _ (placement_of_get? hv')).host_eq hg
  cases hq : saved.placement v with
  | none =>
    rw [hq] at hback
    cases hback
  | some q =>
    obtain ⟨vm, hv, hhost, -⟩ := (placement_eq_some_iff _ _ _).mp hq
    rw [hq] at hback
    exact ⟨vm, hv, hhost.trans hback, hr.demand v vm vm' hv hv'⟩

omit [AddCommMonoid M] [PartialOrder M] [IsOrderedAddMonoid M] in
theorem target_back {v : VmId} {vm' : Vm α} (hv' : pool.vms.get? v = some vm')
    (hg : vm'.migrationTarget = some g) :
    ∃ vm, saved.vms.get? v = some vm ∧ vm.migrationTarget = some g
      ∧ f vm'.demand = f vm.demand := by
  have hback := (hr.within v _ (placement_of_get? hv')).target_eq hg
  cases hq : saved.placement v with
  | none =>
    rw [hq] at hback
    cases hback
  | some q =>
    obtain ⟨vm, hv, -, htarget⟩ := (placement_eq_some_iff _ _ _).mp hq
    rw [hq] at hback
    exact ⟨vm, hv, htarget.trans hback, hr.demand v vm vm' hv hv'⟩

/-- With what a VM that is put back on a host brings to it, the host has at most what it had. -/
theorem allocated_le (own : saved.Ownership) (own' : pool.Ownership)
    (hf : ∀ v vm, saved.vms.get? v = some vm → 0 ≤ f vm.demand) {host former : Host α}
    (hh : pool.hosts.get? g = some host) (hformer : saved.hosts.get? g = some former)
    (he : host.Exact f) (hbefore : former.Exact f) {v : VmId} {vm' : Vm α} {q : Placement}
    (hv' : pool.vms.get? v = some vm') (hq : saved.placement v = some q)
    (hback : vm'.host = none ∧ q.host = some g ∨ vm'.migrationTarget = none ∧ q.target = some g) :
    f host.residentTotal + f host.incomingTotal + f vm'.demand
      ≤ f former.residentTotal + f former.incomingTotal := by
  obtain ⟨vm, hv, hqhost, hqtarget⟩ := (placement_eq_some_iff _ _ _).mp hq
  have hdemand := hr.demand v vm vm' hv hv'
  rw [he.resident.total, he.incoming.total, hbefore.resident.total, hbefore.incoming.total,
    own'.resident_total f hh, own'.incoming_total f hh, own.resident_total f hformer,
    own.incoming_total f hformer]
  rcases hback with ⟨hnone, hhost⟩ | ⟨hnone, htarget⟩
  · rw [add_right_comm]
    refine add_le_add (sumAt_add_le hf hv' ?_ ⟨vm, hv, hqhost.trans hhost, hdemand⟩
      fun w r' => hr.host_back) (sumAt_le hf fun w r' => hr.target_back)
    rw [hnone]
    exact (Option.some_ne_none g).symm
  · rw [add_assoc]
    refine add_le_add (sumAt_le hf fun w r' => hr.host_back) (sumAt_add_le hf hv' ?_
      ⟨vm, hv, hqtarget.trans htarget, hdemand⟩ fun w r' => hr.target_back)
    rw [hnone]
    exact (Option.some_ne_none g).symm

end Recalls

end

end Pool

/-! ### Answers of a restoration -/

variable {α : Type} [Scalar α]

/-- The attempt got to its end, and the pool has a property, or it stopped where something was short
in an expected dimension. -/
def Restoration.Answers (short : Dimension → Prop) (P : Pool α → Prop) (r : Restoration α) :
    Prop :=
  r.failure = none ∧ P r.pool
    ∨ ∃ v h d, short d ∧ r.failure = some (.refused v h (.notEnough d))

namespace Restoration.Answers

omit [Scalar α]

variable {short : Dimension → Prop} {P Q : Pool α → Prop}

theorem done {pool : Pool α} (hp : P pool) : (⟨pool, none⟩ : Restoration α).Answers short P :=
  .inl ⟨rfl, hp⟩

theorem bind {x : Checked (Restoration α)} {next : Pool α → Checked (Restoration α)}
    (hx : ∃ r, x = .ok r ∧ r.Answers short P)
    (hnext : ∀ pool, P pool → ∃ r, next pool = .ok r ∧ r.Answers short Q) :
    ∃ r, (do let r ← x; r.andThen next) = .ok r ∧ r.Answers short Q := by
  obtain ⟨⟨pool, failure⟩, rfl, ⟨rfl, hp⟩ | ⟨v, h, d, hd, rfl⟩⟩ := hx
  · exact hnext pool hp
  · exact ⟨_, rfl, .inr ⟨v, h, d, hd, rfl⟩⟩

theorem ofOutcome {pool : Pool α} (v : VmId) (h : HostId) {x : Outcome Refusal (Pool α)}
    (hx : (∃ pool', x = .done pool' ∧ P pool') ∨ ∃ d, short d ∧ x = .refused (.notEnough d)) :
    ∃ r, Restoration.ofOutcome pool v h x = .ok r ∧ r.Answers short P := by
  rcases hx with ⟨pool', rfl, hp⟩ | ⟨d, hd, rfl⟩
  · exact ⟨_, rfl, done hp⟩
  · exact ⟨_, rfl, .inr ⟨v, h, d, hd, rfl⟩⟩

end Restoration.Answers

/-! ### Restoring entries -/

namespace Pool

/-- A property of pools on the way back to a saved one. Putting a VM back keeps it, and is refused
for nothing but a shortage in expected dimensions. -/
structure PutsBack (saved : Pool α) (short : Dimension → Prop) (P : Pool α → Prop) : Prop where
  reachable : ∀ {pool}, P pool → pool.Reachable
  hosts : ∀ {pool h former}, P pool → saved.hosts.get? h = some former →
    ∃ host, pool.hosts.get? h = some host
  known : ∀ {pool v q}, P pool → saved.placement v = some q →
    ∃ p, pool.placement v = some p ∧ p.Within q
  keeps : ∀ {pool pool' v p q}, P pool → Steps Op.Rearranges pool pool' →
    saved.placement v = some q → p.Within q →
    (∀ w, pool'.placement w = if w = v then some p else pool.placement w) → P pool'
  shortage : ∀ {pool v vm q g host d}, P pool → pool.vms.get? v = some vm →
    saved.placement v = some q → pool.hosts.get? g = some host →
    (vm.host = none ∧ q.host = some g ∨ vm.migrationTarget = none ∧ q.target = some g) →
    host.shortage vm.demand = .ok (some d) → short d

namespace PutsBack

variable {saved pool : Pool α} {short : Dimension → Prop} {P : Pool α → Prop}
  (hb : PutsBack saved short P) (own : saved.Ownership) (hp : P pool)

include hb own hp

theorem allocate {v : VmId} {vm : Vm α} {q : Placement} {g : HostId}
    (hv : pool.vms.get? v = some vm) (hq : saved.placement v = some q) (hnone : vm.host = none)
    (hg : q.host = some g) :
    (∃ pool', pool.allocate v g = .done pool'
      ∧ P pool' ∧ ∃ t, pool'.placement v = some ⟨q.host, t⟩)
    ∨ ∃ d, short d ∧ pool.allocate v g = .refused (.notEnough d) := by
  obtain ⟨record, hrecord, hqhost, -⟩ := (placement_eq_some_iff _ _ _).mp hq
  obtain ⟨former, hformer⟩ := own.exists_host hrecord (hqhost.trans hg)
  obtain ⟨host, hh⟩ := hb.hosts hp hformer
  have hr := hb.reachable hp
  rcases hr.allocate_cases hv hnone hh with ⟨pool', hdone⟩ | ⟨d, hshort, hrefused⟩
  · obtain ⟨-, hplaced⟩ := allocate_placement hr.ownership hdone
    refine .inl ⟨pool', hdone, ?_, none, by rw [hplaced, if_pos rfl, hg]⟩
    exact hb.keeps hp (allocate_steps hdone) hq ⟨.inr hg.symm, .inl rfl⟩ hplaced
  · exact .inr ⟨d, hb.shortage hp hv hq hh (.inl ⟨hnone, hg⟩) hshort, hrefused⟩

theorem startMigration {v : VmId} {vm : Vm α} {q : Placement} {t : HostId}
    (hv : pool.vms.get? v = some vm) (hq : saved.placement v = some q) (hhost : vm.host = q.host)
    (hnone : vm.migrationTarget = none) (ht : q.target = some t) :
    (∃ pool', pool.startMigration v t = .done pool' ∧ P pool')
    ∨ ∃ d, short d ∧ pool.startMigration v t = .refused (.notEnough d) := by
  obtain ⟨record, hrecord, hqhost, hqtarget⟩ := (placement_eq_some_iff _ _ _).mp hq
  obtain ⟨s, hsource, hne⟩ := own.moving v record t hrecord (hqtarget.trans ht)
  obtain ⟨former, hformer⟩ := own.exists_target hrecord (hqtarget.trans ht)
  obtain ⟨target, htarget⟩ := hb.hosts hp hformer
  have hs : vm.host = some s := hhost.trans (hqhost.symm.trans hsource)
  rcases (hb.reachable hp).startMigration_cases hv hs hnone hne htarget with
    ⟨pool', hdone⟩ | ⟨d, hshort, hrefused⟩
  · obtain ⟨g, hbefore, -, hplaced⟩ := startMigration_placement hdone
    rw [placement_of_get? hv, Option.some.injEq, Placement.mk.injEq] at hbefore
    have hwithin : (⟨some g, some t⟩ : Placement).Within q :=
      ⟨.inr (hbefore.1.symm.trans hhost), .inr ht.symm⟩
    exact .inl ⟨pool', hdone, hb.keeps hp (startMigration_steps hdone) hq hwithin hplaced⟩
  · exact .inr ⟨d, hb.shortage hp hv hq htarget (.inr ⟨hnone, ht⟩) hshort, hrefused⟩

theorem restoreHost {entry : SnapshotEntry} {vm : Vm α} (hv : pool.vms.get? entry.vm = some vm)
    (hq : saved.placement entry.vm = some entry.placement) :
    ∃ r, Ledger.restoreHost pool vm entry = .ok r ∧ r.Answers short fun pool' =>
      P pool' ∧ ∃ t, pool'.placement entry.vm = some ⟨entry.host, t⟩ := by
  rw [Ledger.restoreHost]
  split
  · rename_i hsame
    exact ⟨_, rfl, .done ⟨hp, vm.migrationTarget, by rw [placement_of_get? hv, hsame]⟩⟩
  · rename_i hother
    obtain ⟨p, hplaced, hwithin⟩ := hb.known hp hq
    rw [placement_of_get? hv, Option.some.injEq] at hplaced
    subst hplaced
    have hnone : vm.host = none := hwithin.host.resolve_right hother
    have hrelease : pool.release entry.vm = none := by simp [release, hv, hnone]
    rw [hrelease, Option.map_none, Option.getD_none]
    cases hg : entry.host with
    | none => exact absurd (hnone.trans hg.symm) hother
    | some g =>
      have hanswer := hb.allocate own hp hv hq hnone hg
      rw [show entry.placement.host = some g from hg] at hanswer
      exact Restoration.Answers.ofOutcome entry.vm g hanswer

theorem restoreTarget {entry : SnapshotEntry} {t : Option HostId}
    (hnow : pool.placement entry.vm = some ⟨entry.host, t⟩)
    (hq : saved.placement entry.vm = some entry.placement) :
    ∃ r, Ledger.restoreTarget pool entry = .ok r ∧ r.Answers short P := by
  obtain ⟨vm, hv, hhost, htarget⟩ := (placement_eq_some_iff _ _ _).mp hnow
  have hvm : pool.vm entry.vm = .ok vm := (vm_eq_ok_iff _ _ _).mpr hv
  simp only [Ledger.restoreTarget, hvm, Checked.ok_bind]
  split
  · exact ⟨_, rfl, .done hp⟩
  · rename_i hother
    obtain ⟨p, hplaced, hwithin⟩ := hb.known hp hq
    rw [placement_of_get? hv, Option.some.injEq] at hplaced
    subst hplaced
    have hnone : vm.migrationTarget = none := hwithin.target.resolve_right hother
    have hcancel : (pool.cancelMigration entry.vm).toOption.getD pool = pool := by
      simp [cancelMigration, hv, hnone, Except.toOption]
    rw [hcancel]
    cases ht : entry.migrationTarget with
    | none => exact absurd (hnone.trans ht.symm) hother
    | some target =>
      exact Restoration.Answers.ofOutcome entry.vm target
        (hb.startMigration own hp hv hq hhost hnone ht)

theorem restoreEntry {entry : SnapshotEntry}
    (hq : saved.placement entry.vm = some entry.placement) :
    ∃ r, Ledger.restoreEntry pool entry = .ok r ∧ r.Answers short P := by
  obtain ⟨p, hplaced, -⟩ := hb.known hp hq
  obtain ⟨vm, hv, -⟩ := (placement_eq_some_iff _ _ _).mp hplaced
  simp only [Ledger.restoreEntry, hv]
  refine Restoration.Answers.bind (hb.restoreHost own hp hv hq) ?_
  rintro between ⟨hbetween, t, hnow⟩
  exact hb.restoreTarget own hbetween hnow hq

/-- Every entry is put back, or there is a shortage in an expected dimension. -/
theorem restoreEntries (toRestore : Std.TreeSet VmId) {entries : List SnapshotEntry}
    (hq : ∀ entry ∈ entries, saved.placement entry.vm = some entry.placement) :
    ∃ r, Ledger.restoreEntries toRestore pool entries = .ok r ∧ r.Answers short P := by
  induction entries generalizing pool with
  | nil => exact ⟨_, rfl, .done hp⟩
  | cons entry rest ih =>
    have hrest : ∀ x ∈ rest, saved.placement x.vm = some x.placement :=
      fun x hx => hq x (List.mem_cons_of_mem _ hx)
    rw [Ledger.restoreEntries]
    split
    · exact Restoration.Answers.bind (hb.restoreEntry own hp (hq entry List.mem_cons_self))
        fun between hbetween => ih hbetween hrest
    · exact ih hp hrest

end PutsBack

end Pool

end Datacenter
