import Datacenter.Host
import Datacenter.Proofs.Stock

/-!
# What hosts can do

Each change of a host is told once: under which condition it is made and what the host is after it.
A step of a host is one of these changes.

Main statements: `allocate_eq_done_iff`, `reserve_eq_done_iff`, `land_eq_done_iff` and
`resize_eq_done_iff`.
-/

namespace Datacenter

/-! ### Checked values in outcomes -/

namespace Outcome

variable {ε β γ : Type}

theorem lift_eq (x : Checked β) : (liftM x : Outcome ε β) = ofChecked x := rfl

@[simp] theorem ofChecked_eq_done_iff (x : Checked β) (b : β) :
    (ofChecked x : Outcome ε β) = done b ↔ x = .ok b := by
  cases x <;> simp [ofChecked]

@[simp] theorem ofChecked_ok (b : β) : (ofChecked (.ok b) : Outcome ε β) = done b := rfl

/-- A value or a refusal. -/
def IsSettled (x : Outcome ε β) : Prop := ∀ e, x ≠ fault e

theorem isSettled_done (b : β) : (done b : Outcome ε β).IsSettled := by
  intro e
  simp

theorem isSettled_refused (reason : ε) : (refused reason : Outcome ε β).IsSettled := by
  intro e
  simp

theorem IsSettled.bind {x : Outcome ε β} {f : β → Outcome ε γ} (hx : x.IsSettled)
    (hf : ∀ b, x = done b → (f b).IsSettled) : (x >>= f).IsSettled := by
  cases x with
  | done b => exact hf b rfl
  | refused reason => exact isSettled_refused reason
  | fault e => exact absurd rfl (hx e)

end Outcome

namespace Host

variable {α : Type}

@[simp] theorem roomOrRefuse_eq_done_iff (shortage : Option Dimension) (u : Unit) :
    roomOrRefuse shortage = .done u ↔ shortage = none := by
  cases shortage <;> simp [roomOrRefuse]

/-- The same host, whatever it holds. -/
def IsSame (host host' : Host α) : Prop :=
  host'.id = host.id ∧ host'.toHostSpec = host.toHostSpec

theorem holds_eq_false_iff (host : Host α) (v : VmId) :
    host.holds v = false ↔ host.resident.get? v = none ∧ host.incoming.get? v = none := by
  simp [holds, Table.contains]

variable [Scalar α]

theorem shortage_eq_none_iff (host : Host α) (demand : Resources α) :
    host.shortage demand = .ok none ↔
      ∃ allocated, host.allocated = .ok allocated
        ∧ (host.capacity.sub allocated).shortage demand = none := by
  simp [shortage, available, Checked.bind_eq_ok_iff, Checked.pure_eq_ok]

/-! ### Changes -/

/-- Both ways to take a demand in test the same things and add the demand to one of the totals. -/
theorem admit_eq_done_iff (host host' : Host α) (v : VmId) (demand before : Resources α)
    (after : Resources α → Host α) :
    (if host.holds v then .refused .alreadyAllocated
      else do
        roomOrRefuse (← host.shortage demand)
        let total ← before.add demand
        return after total : Outcome Refusal (Host α)) = .done host' ↔
      host.resident.get? v = none ∧ host.incoming.get? v = none
        ∧ host.shortage demand = .ok none
        ∧ ∃ total, before.add demand = .ok total ∧ host' = after total := by
  by_cases hv : host.holds v = true
  · have hn := mt (holds_eq_false_iff host v).mpr (by simp [hv])
    simp only [hv, if_true, reduceCtorEq, false_iff]
    rintro ⟨hr, hi, -⟩
    exact hn ⟨hr, hi⟩
  · rw [Bool.not_eq_true] at hv
    obtain ⟨hr, hi⟩ := (holds_eq_false_iff host v).mp hv
    simp only [hv, Bool.false_eq_true, if_false, Outcome.bind_eq_done_iff, Outcome.lift_eq,
      Outcome.ofChecked_eq_done_iff, roomOrRefuse_eq_done_iff, Outcome.pure_eq,
      Outcome.done.injEq, hr, hi, true_and]
    constructor
    · rintro ⟨s, hs, u, rfl, total, ht, rfl⟩
      exact ⟨hs, total, ht, rfl⟩
    · rintro ⟨hs, total, ht, rfl⟩
      exact ⟨none, hs, (), rfl, total, ht, rfl⟩

theorem allocate_eq_done_iff (host host' : Host α) (v : VmId) (demand : Resources α) :
    host.allocate v demand = .done host' ↔
      host.resident.get? v = none ∧ host.incoming.get? v = none
        ∧ host.shortage demand = .ok none
        ∧ ∃ total, host.residentTotal.add demand = .ok total
          ∧ host' =
            { host with resident := host.resident.insert v demand, residentTotal := total } :=
  admit_eq_done_iff host host' v demand host.residentTotal
    fun total => { host with resident := host.resident.insert v demand, residentTotal := total }

theorem reserve_eq_done_iff (host host' : Host α) (v : VmId) (demand : Resources α) :
    host.reserve v demand = .done host' ↔
      host.resident.get? v = none ∧ host.incoming.get? v = none
        ∧ host.shortage demand = .ok none
        ∧ ∃ total, host.incomingTotal.add demand = .ok total
          ∧ host' =
            { host with incoming := host.incoming.insert v demand, incomingTotal := total } :=
  admit_eq_done_iff host host' v demand host.incomingTotal
    fun total => { host with incoming := host.incoming.insert v demand, incomingTotal := total }

theorem release_of_get? {host : Host α} {v : VmId} {demand : Resources α}
    (h : host.resident.get? v = some demand) :
    host.release v =
      { host with
        resident := host.resident.erase v, residentTotal := host.residentTotal.sub demand } := by
  rw [release, h]

theorem cancel_of_get? {host : Host α} {v : VmId} {demand : Resources α}
    (h : host.incoming.get? v = some demand) :
    host.cancel v =
      { host with
        incoming := host.incoming.erase v, incomingTotal := host.incomingTotal.sub demand } := by
  rw [cancel, h]

theorem get?_resident_release (host : Host α) (v w : VmId) :
    (host.release v).resident.get? w = if w = v then none else host.resident.get? w := by
  cases hv : host.resident.get? v with
  | some demand =>
    rw [release_of_get? hv]
    exact Table.get?_erase ..
  | none =>
    simp only [release, hv]
    by_cases hw : w = v
    · rw [if_pos hw, hw, hv]
    · rw [if_neg hw]

theorem incoming_release (host : Host α) (v : VmId) :
    (host.release v).incoming = host.incoming := by
  rw [release]
  split <;> rfl

theorem isSame_release (host : Host α) (v : VmId) : host.IsSame (host.release v) := by
  rw [release]
  split <;> exact ⟨rfl, rfl⟩

theorem get?_incoming_cancel (host : Host α) (v w : VmId) :
    (host.cancel v).incoming.get? w = if w = v then none else host.incoming.get? w := by
  cases hv : host.incoming.get? v with
  | some demand =>
    rw [cancel_of_get? hv]
    exact Table.get?_erase ..
  | none =>
    simp only [cancel, hv]
    by_cases hw : w = v
    · rw [if_pos hw, hw, hv]
    · rw [if_neg hw]

theorem resident_cancel (host : Host α) (v : VmId) :
    (host.cancel v).resident = host.resident := by
  rw [cancel]
  split <;> rfl

theorem isSame_cancel (host : Host α) (v : VmId) : host.IsSame (host.cancel v) := by
  rw [cancel]
  split <;> exact ⟨rfl, rfl⟩

theorem land_eq_done_iff (host host' : Host α) (v : VmId) :
    host.land v = .done host' ↔
      ∃ demand total, host.incoming.get? v = some demand
        ∧ host.residentTotal.add demand = .ok total
        ∧ host' =
          { host with
            resident := host.resident.insert v demand, residentTotal := total
            incoming := host.incoming.erase v
            incomingTotal := host.incomingTotal.sub demand } := by
  rw [land]
  cases hv : host.incoming.get? v with
  | none => simp
  | some demand =>
    simp only [cancel_of_get? hv, Outcome.bind_eq_done_iff, Outcome.lift_eq,
      Outcome.ofChecked_eq_done_iff, Outcome.pure_eq, Outcome.done.injEq, Option.some.injEq]
    constructor
    · rintro ⟨total, ht, rfl⟩
      exact ⟨demand, total, rfl, ht, rfl⟩
    · rintro ⟨_, total, rfl, ht, rfl⟩
      exact ⟨total, ht, rfl⟩

theorem resize_eq_done_iff (host host' : Host α) (v : VmId) (demand : Resources α) :
    host.resize v demand = .done host' ↔
      ∃ current available room total, host.resident.get? v = some current
        ∧ host.available = .ok available ∧ available.add current = .ok room
        ∧ room.shortage demand = none
        ∧ (host.residentTotal.sub current).add demand = .ok total
        ∧ host' =
          { host with resident := host.resident.insert v demand, residentTotal := total } := by
  rw [resize]
  cases hv : host.resident.get? v with
  | none => simp
  | some current =>
    simp only [Outcome.bind_eq_done_iff, Outcome.lift_eq, Outcome.ofChecked_eq_done_iff,
      roomOrRefuse_eq_done_iff, Outcome.pure_eq, Outcome.done.injEq, Option.some.injEq]
    constructor
    · rintro ⟨available, ha, room, hr, u, hs, total, ht, rfl⟩
      exact ⟨current, available, room, total, rfl, ha, hr, hs, ht, rfl⟩
    · rintro ⟨_, available, room, total, rfl, ha, hr, hs, ht, rfl⟩
      exact ⟨available, ha, room, hr, (), hs, total, ht, rfl⟩

/-! ### Steps -/

/-- One change of a host. Demands that come in are of an admitted kind. -/
inductive Step (admits : Resources α → Prop) : Host α → Host α → Prop where
  | allocate {host host' : Host α} {v : VmId} {demand : Resources α} (hd : admits demand)
      (h : host.allocate v demand = .done host') : Step admits host host'
  | release (host : Host α) (v : VmId) : Step admits host (host.release v)
  | reserve {host host' : Host α} {v : VmId} {demand : Resources α} (hd : admits demand)
      (h : host.reserve v demand = .done host') : Step admits host host'
  | cancel (host : Host α) (v : VmId) : Step admits host (host.cancel v)
  | land {host host' : Host α} {v : VmId} (h : host.land v = .done host') : Step admits host host'
  | resize {host host' : Host α} {v : VmId} {demand : Resources α} (hd : admits demand)
      (h : host.resize v demand = .done host') : Step admits host host'

end Host

end Datacenter
