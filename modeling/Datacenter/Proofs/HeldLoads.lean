import Datacenter.Tally
import Datacenter.Proofs.PoolSteps

/-!
# Loads that a tally holds

What a tally answers for a host is the load that it holds, or else the one that the pool gives. So
the answers are a view of the tally. Asking adds to what is held and leaves the view as it is, and
moving a demand changes the view in the same way whatever is held before.

Main statements: `load_filled`, `fits_agrees` and `moveDemand_agrees`.
-/

namespace Datacenter

/-! ### Computations that agree -/

namespace Checked

variable {β γ δ η : Type} {R : β → γ → Prop} {S : δ → η → Prop} {x : Checked β} {y : Checked γ}

/-- Both have the same fault, or values that are related. -/
def Agree (R : β → γ → Prop) : Checked β → Checked γ → Prop
  | .ok b, .ok c => R b c
  | .error e, .error e' => e = e'
  | _, _ => False

namespace Agree

theorem refl (x : Checked β) : Agree Eq x x := by
  cases x with
  | ok b => exact rfl
  | error e => exact rfl

theorem eq {y : Checked β} (h : Agree Eq x y) : x = y := by
  match x, y, h with
  | .ok _, .ok _, rfl => exact rfl
  | .error _, .error _, rfl => exact rfl

theorem bind (h : Agree R x y) {f : β → Checked δ} {g : γ → Checked η}
    (hf : ∀ b c, R b c → Agree S (f b) (g c)) : Agree S (x >>= f) (y >>= g) := by
  match x, y, h with
  | .ok b, .ok c, h => exact hf b c h
  | .error e, .error e', h => exact h

theorem ite {c : Prop} [Decidable c] {x' : Checked β} {y' : Checked γ} (h : c → Agree R x y)
    (h' : ¬c → Agree R x' y') : Agree R (if c then x else x') (if c then y else y') := by
  split
  · exact h ‹c›
  · exact h' ‹¬c›

theorem mono (h : Agree R x y) {R' : β → γ → Prop} (hR : ∀ b c, R b c → R' b c) :
    Agree R' x y := by
  match x, y, h with
  | .ok b, .ok c, h => exact hR b c h
  | .error e, .error e', h => exact h

theorem eq_ok_left (h : Agree R x y) {b : β} (hx : x = .ok b) : ∃ c, y = .ok c ∧ R b c := by
  subst hx
  match y, h with
  | .ok c, h => exact ⟨c, rfl, h⟩

theorem eq_ok_right (h : Agree R x y) {c : γ} (hy : y = .ok c) : ∃ b, x = .ok b ∧ R b c := by
  subst hy
  match x, h with
  | .ok b, h => exact ⟨b, rfl, h⟩

theorem eq_error_right (h : Agree R x y) {e : Fault} (hy : y = .error e) : x = .error e := by
  subst hy
  match x, h with
  | .error e', h => exact congrArg Except.error h

/-- What agrees with the same computation agrees. -/
theorem join {z : Checked η} {T : δ → η → Prop} {R : β → η → Prop} {y : Checked δ}
    (h : Agree R x z) (h' : Agree T y z) : Agree (fun b d => ∃ c, R b c ∧ T d c) x y := by
  match x, y, z, h, h' with
  | .ok b, .ok d, .ok c, h, h' => exact ⟨c, h, h'⟩
  | .error e, .error e', .error e'', h, h' => exact Eq.trans h (Eq.symm h')

end Agree

end Checked

open Checked (Agree)

theorem PlannedLoad.current_eq_ok {α : Type} [Scalar α] {pool : Pool α} {h : HostId} {host : Host α}
    {projected committed : Resources α} (hh : pool.hosts.get? h = some host)
    (hp : pool.planningLoad h = .ok projected) (ha : host.allocated = .ok committed) :
    current pool h = .ok ⟨projected, committed⟩ := by
  rw [current, hp, Checked.ok_bind, (Pool.host_eq_ok_iff _ _ _).mpr hh, Checked.ok_bind, ha]
  rfl

namespace Tally

variable {α : Type} [Scalar α]

/-! ### Views -/

/-- What is answered for each host. -/
abbrev View (α : Type) := HostId → Checked (PlannedLoad α)

def view (t : Tally α) (pool : Pool α) : View α := fun h =>
  match t.loads.get? h with
  | some load => .ok load
  | none => PlannedLoad.current pool h

namespace View

def cpuUtilization (view : View α) (pool : Pool α) (h : HostId) : Checked α := do
  let load ← view h
  let host ← pool.host h
  return load.cpuUtilization host

def ramUtilization (view : View α) (pool : Pool α) (h : HostId) : Checked α := do
  let load ← view h
  let host ← pool.host h
  return load.ramUtilization host

def fits (view : View α) (pool : Pool α) (h : HostId) (demand : Resources α) (upper : α) :
    Checked Bool := do
  let load ← view h
  let host ← pool.host h
  load.fits host demand upper

/-- The view in which the demand has moved. -/
def moveDemand (view : View α) (source target : HostId) (demand : Resources α) :
    Checked (View α) := do
  let left ← view source
  let _ ← view target
  let reduced : View α := fun h => if h = source then .ok (left.without demand) else view h
  let taken ← reduced target
  let grown ← taken.plus demand
  return fun h => if h = target then .ok grown else reduced h

end View

variable {t t' : Tally α} {pool : Pool α} {h : HostId}

theorem view_empty (pool : Pool α) : empty.view pool = PlannedLoad.current pool := by
  funext h
  have hnone : (empty : Tally α).loads.get? h = none := Table.get?_empty h
  rw [view, hnone]

theorem view_of_held {load : PlannedLoad α} (hheld : t.loads.get? h = some load) :
    t.view pool h = .ok load := by
  rw [view, hheld]

theorem view_insert (t : Tally α) (pool : Pool α) (h : HostId) (load : PlannedLoad α) :
    (⟨t.loads.insert h load⟩ : Tally α).view pool
      = fun g => if g = h then .ok load else t.view pool g := by
  funext g
  rw [view, Table.get?_insert]
  by_cases hg : g = h
  · rw [if_pos hg, if_pos hg]
  · rw [if_neg hg, if_neg hg, view]

/-! ### Asking for loads -/

/-- The load of the host is answered and held, and all else is answered and held as before. -/
structure Filled (t : Tally α) (pool : Pool α) (h : HostId) (r : PlannedLoad α × Tally α)
    (load : PlannedLoad α) : Prop where
  answer : r.1 = load
  view : r.2.view pool = t.view pool
  held : r.2.loads.get? h = some load
  kept : ∀ g l, t.loads.get? g = some l → r.2.loads.get? g = some l

/-- The answer is given, and no other answer changes. -/
structure Answered {β : Type} (t : Tally α) (pool : Pool α) (r : β × Tally α) (answer : β) :
    Prop where
  answer : r.1 = answer
  view : r.2.view pool = t.view pool

theorem load_filled (t : Tally α) (pool : Pool α) (h : HostId) :
    Agree (t.Filled pool h) (t.load pool h) (t.view pool h) := by
  rw [load, view]
  cases hheld : t.loads.get? h with
  | some load => exact ⟨rfl, rfl, hheld, fun _ _ hg => hg⟩
  | none =>
    dsimp only
    cases hcurrent : PlannedLoad.current pool h with
    | error e => exact rfl
    | ok load =>
      refine ⟨rfl, ?_, ?_, fun g l hg => ?_⟩
      · funext g
        refine (congrFun (view_insert t pool h load) g).trans ?_
        split
        · rename_i hgh
          rw [hgh, view, hheld, hcurrent]
        · rfl
      · exact (Table.get?_insert _ _ _ _).trans (if_pos rfl)
      · have hne : g ≠ h := by
          rintro rfl
          rw [hheld] at hg
          cases hg
        exact ((Table.get?_insert _ _ _ _).trans (if_neg hne)).trans hg

theorem load_agrees (t : Tally α) (pool : Pool α) (h : HostId) :
    Agree (t.Answered pool) (t.load pool h) (t.view pool h) :=
  (load_filled t pool h).mono fun _ _ hr => ⟨hr.answer, hr.view⟩

/-- What is computed from the load of a host and its record depends on the view alone. -/
theorem read_agrees {β : Type} (t : Tally α) (pool : Pool α) (h : HostId)
    (read : PlannedLoad α → Host α → Checked β) :
    Agree (t.Answered pool)
      (do
        let (load, tally) ← t.load pool h
        let host ← pool.host h
        let answer ← read load host
        return (answer, tally))
      (do
        let load ← t.view pool h
        let host ← pool.host h
        read load host) := by
  refine (load_agrees t pool h).bind fun r load hr => (Agree.refl (pool.host h)).bind ?_
  rintro host _ rfl
  obtain ⟨rfl, hview⟩ := hr
  cases hread : read r.1 host with
  | ok answer => exact ⟨rfl, hview⟩
  | error e => exact rfl

theorem cpuUtilization_agrees (t : Tally α) (pool : Pool α) (h : HostId) :
    Agree (t.Answered pool) (t.cpuUtilization pool h) ((t.view pool).cpuUtilization pool h) :=
  read_agrees t pool h fun load host => .ok (load.cpuUtilization host)

theorem ramUtilization_agrees (t : Tally α) (pool : Pool α) (h : HostId) :
    Agree (t.Answered pool) (t.ramUtilization pool h) ((t.view pool).ramUtilization pool h) :=
  read_agrees t pool h fun load host => .ok (load.ramUtilization host)

/-- Both utilizations of a host, asked for one after the other. -/
theorem utilizations_eq_ok {cpu ram : α} (hcpu : (t.view pool).cpuUtilization pool h = .ok cpu)
    (hram : (t.view pool).ramUtilization pool h = .ok ram) :
    ∃ read last, t.cpuUtilization pool h = .ok (cpu, read)
      ∧ read.ramUtilization pool h = .ok (ram, last) := by
  obtain ⟨⟨_, read⟩, hread, rfl, hsame⟩ := (cpuUtilization_agrees t pool h).eq_ok_right hcpu
  have hlater := ramUtilization_agrees read pool h
  rw [hsame] at hlater
  obtain ⟨⟨_, last⟩, hlast, rfl, -⟩ := hlater.eq_ok_right hram
  exact ⟨read, last, hread, hlast⟩

theorem fits_agrees (t : Tally α) (pool : Pool α) (h : HostId) (demand : Resources α) (upper : α) :
    Agree (t.Answered pool) (t.fits pool h demand upper)
      ((t.view pool).fits pool h demand upper) :=
  read_agrees t pool h fun load host => load.fits host demand upper

/-! ### Moving a demand -/

/-- Changing a load that is held changes one answer. -/
theorem change_agrees {load : PlannedLoad α} (hheld : t.loads.get? h = some load) (pool : Pool α)
    (f : PlannedLoad α → Checked (PlannedLoad α)) :
    Agree (fun t' view' => t'.view pool = view') (t.change h f) (do
      let changed ← f (← t.view pool h)
      return fun g => if g = h then .ok changed else t.view pool g) := by
  rw [change, hheld, view_of_held hheld]
  refine (Agree.refl (f load)).bind ?_
  rintro changed _ rfl
  exact view_insert t pool h changed

/-- Both hosts are asked for first, so what the tally held before does not matter. -/
theorem moveDemand_agrees (t : Tally α) (pool : Pool α) (source target : HostId)
    (demand : Resources α) :
    Agree (fun t' view' => t'.view pool = view') (t.moveDemand pool source target demand)
      ((t.view pool).moveDemand source target demand) := by
  refine (load_filled t pool source).bind fun r left hr => ?_
  rw [← hr.view]
  refine (load_filled r.2 pool target).bind fun r' taken hr' => ?_
  rw [← hr'.view]
  -- The source is still held after the target was asked for, and the target after the change.
  have hsource := hr'.kept _ _ hr.held
  let changed : Tally α := ⟨r'.2.loads.insert source (left.without demand)⟩
  have hchanged : r'.2.change source (fun load => .ok (load.without demand)) = .ok changed := by
    rw [change, hsource]
    rfl
  obtain ⟨load, htarget⟩ : ∃ load, changed.loads.get? target = some load := by
    rw [Table.get?_insert]
    split
    · exact ⟨_, rfl⟩
    · exact ⟨taken, hr'.held⟩
  have hagrees := change_agrees htarget pool fun load => load.plus demand
  rw [view_insert] at hagrees
  change Agree _ (do
    let tally ← r'.2.change source fun load => .ok (load.without demand)
    tally.change target fun load => load.plus demand) _
  rw [hchanged]
  exact hagrees

end Tally

end Datacenter
