import Datacenter.Proofs.Placements

/-!
# Restored placements

An attempt to restore a snapshot that does not stop puts each VM that is to be restored where the
snapshot had it. Other VMs keep their places if none of them is around an evicted host.

Main statements: `evictAll_placement`, `restoreEntries_placement` and `tryRestore_placement`.
-/

namespace Datacenter

variable {α : Type}

open Pool

/-! ### Snapshots -/

def SnapshotEntry.placement (entry : SnapshotEntry) : Placement :=
  ⟨entry.host, entry.migrationTarget⟩

namespace Snapshot

variable [Scalar α] {pool : Pool α}

theorem mem_capture_iff (own : pool.Ownership) (vs : List VmId) (entry : SnapshotEntry) :
    entry ∈ (capture pool vs).entries
      ↔ entry.vm ∈ vs ∧ pool.placement entry.vm = some entry.placement := by
  rw [capture, List.mem_filterMap]
  constructor
  · rintro ⟨v, hmem, hentry⟩
    obtain ⟨vm, hv, rfl⟩ := Option.map_eq_some_iff.mp hentry
    have hid := (own.vm_id v vm hv).1
    exact ⟨hid ▸ hmem, by rw [hid, placement_of_get? hv]; rfl⟩
  · rintro ⟨hmem, hplace⟩
    obtain ⟨vm, hv, hh, ht⟩ := (placement_eq_some_iff _ _ _).mp hplace
    refine ⟨entry.vm, hmem, ?_⟩
    rw [hv, Option.map_some, (own.vm_id _ vm hv).1, hh, ht]
    rfl

/-- Entries of one VM say the same. -/
theorem agree_capture (own : pool.Ownership) (vs : List VmId) :
    ∀ e ∈ (capture pool vs).entries, ∀ f ∈ (capture pool vs).entries, e.vm = f.vm →
      e.placement = f.placement := by
  intro e he f hf heq
  have hplace := ((mem_capture_iff own vs e).mp he).2
  rw [heq, ((mem_capture_iff own vs f).mp hf).2, Option.some.injEq] at hplace
  exact hplace.symm

end Snapshot

namespace Ledger

variable [Scalar α] {pool pool' : Pool α}

/-! ### Evictions -/

theorem evictAll_placement (own : pool.Ownership) (hosts : List HostId) (w : VmId) :
    (evictAll pool hosts).2.placement w
      = (pool.placement w).map fun p => hosts.foldl Placement.without p := by
  induction hosts generalizing pool with
  | nil => exact Option.map_id'.symm
  | cons h hosts ih =>
    have hnext := ih (own.rearranged (evictHost_steps pool h))
    rw [evictHost_placement own, Option.map_map] at hnext
    exact hnext

/-- Only VMs that moved to an evicted host come up as migrating to it. -/
theorem mem_evictAll (own : pool.Ownership) {hosts : List HostId} {e : VmId × HostId}
    (he : e ∈ (evictAll pool hosts).1) :
    e.2 ∈ hosts ∧ ∃ p, pool.placement e.1 = some p ∧ p.target = some e.2 := by
  induction hosts generalizing pool with
  | nil => cases he
  | cons h hosts ih =>
    rw [evictAll, List.mem_append] at he
    rcases he with hnow | hlater
    · cases hh : pool.hosts.get? h with
      | none =>
        rw [hh] at hnow
        cases hnow
      | some host =>
        rw [hh] at hnow
        obtain ⟨v, hv, rfl⟩ := List.mem_map.mp hnow
        exact ⟨List.mem_cons_self, (own.mem_incoming_iff hh v).mp hv⟩
    · obtain ⟨hmem, q, hq, ht⟩ := ih (own.rearranged (evictHost_steps pool h)) hlater
      rw [evictHost_placement own, Option.map_eq_some_iff] at hq
      obtain ⟨p, hp, rfl⟩ := hq
      exact ⟨List.mem_cons_of_mem _ hmem, p, hp, Placement.target_of_without ht⟩

/-- Nothing is resumed if all VMs that were migrating to evicted hosts are to be restored. -/
theorem resume_of_contains {toRestore : Std.TreeSet VmId} {migratingIn : List (VmId × HostId)}
    (h : ∀ e ∈ migratingIn, toRestore.contains e.1 = true) :
    resume toRestore pool migratingIn = .ok ⟨pool, none⟩ := by
  induction migratingIn with
  | nil => rfl
  | cons e rest ih =>
    rw [resume, if_pos (h e List.mem_cons_self)]
    exact ih fun x hx => h x (List.mem_cons_of_mem _ hx)

/-! ### Entries -/

theorem restoreHost_placement (own : pool.Ownership) {entry : SnapshotEntry} {vm : Vm α}
    (hv : pool.vms.get? entry.vm = some vm)
    (h : restoreHost pool vm entry = .ok ⟨pool', none⟩) :
    (∃ t, pool'.placement entry.vm = some ⟨entry.host, t⟩)
      ∧ ∀ w, w ≠ entry.vm → pool'.placement w = pool.placement w := by
  rw [restoreHost] at h
  split at h
  · rename_i hsame
    obtain ⟨rfl, -⟩ := (Restoration.mk.injEq ..).mp (Except.ok.inj h)
    exact ⟨⟨_, by rw [placement_of_get? hv, hsame]⟩, fun _ _ => rfl⟩
  · have hreleased := placement_release own entry.vm
    have own' := own.rearranged (release_steps pool entry.vm)
    split at h
    · rename_i hnone
      obtain ⟨rfl, -⟩ := (Restoration.mk.injEq ..).mp (Except.ok.inj h)
      refine ⟨⟨none, ?_⟩, fun w hw => by rw [hreleased, if_neg hw]⟩
      rw [hreleased, if_pos rfl, placement_of_get? hv, Option.map_some, hnone]
      rfl
    · rename_i g hg
      obtain ⟨-, hallocated⟩ := allocate_placement own' (Restoration.done_of_ofOutcome h)
      refine ⟨⟨none, by rw [hallocated, if_pos rfl, hg]⟩, fun w hw => ?_⟩
      rw [hallocated, if_neg hw, hreleased, if_neg hw]

theorem restoreTarget_placement {entry : SnapshotEntry}
    (h : restoreTarget pool entry = .ok ⟨pool', none⟩) :
    ∃ p, pool.placement entry.vm = some p
      ∧ ∀ w, pool'.placement w
        = if w = entry.vm then some ⟨p.host, entry.migrationTarget⟩ else pool.placement w := by
  rw [restoreTarget, Checked.bind_eq_ok_iff] at h
  obtain ⟨vm, hvm, h⟩ := h
  have hv := (vm_eq_ok_iff _ _ _).mp hvm
  refine ⟨_, placement_of_get? hv, fun w => ?_⟩
  split at h
  · rename_i hsame
    obtain ⟨rfl, -⟩ := (Restoration.mk.injEq ..).mp (Except.ok.inj h)
    split
    · rename_i hw
      rw [hw, placement_of_get? hv, hsame]
    · rfl
  · have hcancelled := placement_cancelMigration pool entry.vm
    split at h
    · rename_i hnone
      obtain ⟨rfl, -⟩ := (Restoration.mk.injEq ..).mp (Except.ok.inj h)
      rw [hcancelled]
      split
      · rename_i hw
        rw [hw, placement_of_get? hv, Option.map_some, hnone]
        rfl
      · rfl
    · rename_i t ht
      obtain ⟨s, hs, -, hstarted⟩ := startMigration_placement (Restoration.done_of_ofOutcome h)
      rw [hcancelled, if_pos rfl, placement_of_get? hv, Option.map_some, Option.some.injEq,
        Placement.staying, Placement.mk.injEq] at hs
      rw [hstarted]
      split
      · rw [ht, hs.1]
      · rename_i hw
        rw [hcancelled, if_neg hw]

theorem restoreEntry_placement (own : pool.Ownership) {entry : SnapshotEntry}
    (h : restoreEntry pool entry = .ok ⟨pool', none⟩) (w : VmId) :
    pool'.placement w = if w = entry.vm then some entry.placement else pool.placement w := by
  rw [restoreEntry] at h
  split at h
  · cases h
  · rename_i vm hv
    obtain ⟨r, hhost, h⟩ := (Checked.bind_eq_ok_iff _ _ _).mp h
    obtain ⟨between, rfl, htarget⟩ := Restoration.done_of_andThen h
    obtain ⟨⟨t, hplaced⟩, hothers⟩ := restoreHost_placement own hv hhost
    obtain ⟨p, hp, hafter⟩ := restoreTarget_placement htarget
    rw [hplaced, Option.some.injEq] at hp
    subst hp
    rw [hafter]
    split
    · rfl
    · rename_i hw
      exact hothers w hw

theorem restoreEntries_placement (own : pool.Ownership) {toRestore : Std.TreeSet VmId}
    {entries : List SnapshotEntry}
    (hagree : ∀ e ∈ entries, ∀ f ∈ entries, e.vm = f.vm → e.placement = f.placement)
    (h : restoreEntries toRestore pool entries = .ok ⟨pool', none⟩) :
    (∀ entry ∈ entries, toRestore.contains entry.vm = true →
        pool'.placement entry.vm = some entry.placement)
      ∧ ∀ w, (∀ entry ∈ entries, toRestore.contains entry.vm = true → entry.vm ≠ w) →
        pool'.placement w = pool.placement w := by
  induction entries generalizing pool with
  | nil =>
    obtain ⟨rfl, -⟩ := (Restoration.mk.injEq ..).mp (Except.ok.inj h)
    exact ⟨fun _ he => (nomatch he), fun _ _ => rfl⟩
  | cons entry rest ih =>
    have hrest : ∀ e ∈ rest, ∀ f ∈ rest, e.vm = f.vm → e.placement = f.placement :=
      fun e he f hf => hagree e (List.mem_cons_of_mem _ he) f (List.mem_cons_of_mem _ hf)
    rw [restoreEntries] at h
    split at h
    · rename_i hcontains
      obtain ⟨r, hentry, h⟩ := (Checked.bind_eq_ok_iff _ _ _).mp h
      obtain ⟨between, rfl, hlast⟩ := Restoration.done_of_andThen h
      have hfirst := restoreEntry_placement own hentry
      obtain ⟨hlater, hothers⟩ := ih (own.rearranged (restoreEntry_steps hentry)) hrest hlast
      refine ⟨fun e he hc => ?_, fun w hw => ?_⟩
      · rcases List.mem_cons.mp he with rfl | he
        · -- A later entry about the same VM puts it there again.
          by_cases hagain : ∃ f ∈ rest, f.vm = e.vm
          · obtain ⟨f, hf, heq⟩ := hagain
            rw [← heq, hlater f hf (heq ▸ hc),
              hagree f (List.mem_cons_of_mem _ hf) e List.mem_cons_self heq]
          · rw [hothers, hfirst, if_pos rfl]
            rintro f hf - heq
            exact hagain ⟨f, hf, heq⟩
        · exact hlater e he hc
      · rw [hothers w fun e he => hw e (List.mem_cons_of_mem _ he), hfirst,
          if_neg (Ne.symm (hw entry List.mem_cons_self hcontains))]
    · rename_i hnot
      obtain ⟨hlater, hothers⟩ := ih own hrest h
      refine ⟨fun e he hc => ?_, fun w hw => hothers w fun e he => hw e (List.mem_cons_of_mem _ he)⟩
      rcases List.mem_cons.mp he with rfl | he
      · exact absurd hc hnot
      · exact hlater e he hc

/-! ### Restoring a pool -/

/-- If all VMs around the evicted hosts are to be restored, only entries are. -/
theorem tryRestore_eq (own : pool.Ownership) (snapshot : Snapshot) {vs : List VmId}
    {hosts : List HostId}
    (hvs : ∀ v p, pool.placement v = some p → (∃ h ∈ hosts, p.IsAround h) → v ∈ vs) :
    Ledger.tryRestore ⟨some snapshot⟩ pool vs hosts
      = restoreEntries (.ofList vs) (evictAll pool hosts).2 snapshot.entries := by
  have hresume : resume (.ofList vs) (evictAll pool hosts).2 (evictAll pool hosts).1
      = .ok ⟨(evictAll pool hosts).2, none⟩ := by
    refine resume_of_contains fun e he => ?_
    obtain ⟨hmem, p, hp, ht⟩ := mem_evictAll own he
    rw [Std.TreeSet.contains_ofList, List.contains_iff_mem]
    exact hvs e.1 p hp ⟨e.2, hmem, .inr ht⟩
  simp only [tryRestore, hresume, Checked.ok_bind]
  rfl

/-- If all VMs around the evicted hosts are to be restored, restored VMs are where they were when
the snapshot of the whole pool was taken, and the others stay where they are. -/
theorem tryRestore_placement {saved : Pool α} (hs : saved.Ownership)
    (hsteps : Steps Op.Rearranges saved pool) {vs : List VmId} {hosts : List HostId}
    (hvs : ∀ v p, pool.placement v = some p → (∃ h ∈ hosts, p.IsAround h) → v ∈ vs)
    (h : Ledger.tryRestore ⟨some (.capture saved saved.vmIds)⟩ pool vs hosts = .ok ⟨pool', none⟩)
    (w : VmId) : pool'.placement w = if w ∈ vs then saved.placement w else pool.placement w := by
  have own := hs.rearranged hsteps
  have hall := tryRestore_steps h
  rw [tryRestore_eq own _ hvs] at h
  obtain ⟨hentries, hothers⟩ := restoreEntries_placement
    (own.rearranged (evictAll_steps pool hosts)) (Snapshot.agree_capture hs _) h
  have hcontains : ∀ v, (Std.TreeSet.ofList vs).contains v = true ↔ v ∈ vs := by
    intro v
    rw [Std.TreeSet.contains_ofList, List.contains_iff_mem]
  split
  · rename_i hw
    cases hplace : saved.placement w with
    | none =>
      -- The VM is unknown, before and after.
      have hsame := (hsteps.trans hall).sameVms w
      rw [placement, Option.map_eq_none_iff] at hplace ⊢
      rw [hplace, Option.map_none, Option.map_eq_none_iff] at hsame
      exact hsame
    | some p =>
      obtain ⟨vm, hv, -⟩ := (placement_eq_some_iff _ _ _).mp hplace
      have hentry := hentries ⟨w, p.host, p.target⟩
        ((Snapshot.mem_capture_iff hs _ _).mpr ⟨(Table.mem_keys_iff _ _).mpr ⟨vm, hv⟩, hplace⟩)
        ((hcontains w).mpr hw)
      exact hentry
  · rename_i hw
    rw [hothers w fun entry _ hc heq => hw (heq ▸ (hcontains _).mp hc), evictAll_placement own]
    cases hplace : pool.placement w with
    | none => rfl
    | some p =>
      rw [Option.map_some, Placement.foldl_without_of_not_isAround fun h hmem haround =>
        hw (hvs w p hplace ⟨h, hmem, haround⟩)]

end Ledger

end Datacenter
