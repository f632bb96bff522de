import Datacenter.Planner
import Datacenter.Proofs.HeldLoads

/-!
# What planners answer from

Planners whose tallies hold different loads have the same outlook if their tallies answer alike.
Asking for a target or for relief leaves the outlook as it is, and the answer depends on the outlook
alone.

Main statements: `firstFit_agrees` and `isRelieved_agrees`.
-/

namespace Datacenter.Planner

open Checked (Agree)

/-- What a planner answers from, whatever loads it holds. -/
structure Outlook (α : Type) where
  pool : Pool α
  simulationId : Nat
  view : Tally.View α
  plannedTargets : Std.TreeSet HostId
  plannedVms : Std.TreeSet VmId

variable {α : Type} [Scalar α]

def outlook (p : Planner α) : Outlook α where
  pool := p.pool
  simulationId := p.simulationId
  view := p.tally.view p.pool
  plannedTargets := p.plannedTargets
  plannedVms := p.plannedVms

namespace Outlook

omit [Scalar α] in
def isPlannedTarget (o : Outlook α) (host : HostId) : Bool := o.plannedTargets.contains host

def firstFit (o : Outlook α) (demand : Resources α) (source : HostId)
    (skip : Std.TreeSet HostId) (upper : α) : List HostId → Checked (Option HostId)
  | [] => .ok none
  | target :: rest => do
    if target = source ∨ skip.contains target ∨ !o.pool.hosts.contains target then
      o.firstFit demand source skip upper rest
    else if ← o.view.fits o.pool target demand upper then return some target
    else o.firstFit demand source skip upper rest

def isRelieved (o : Outlook α) (host : HostId) (upper : α) : Checked Bool := do
  let cpu ← o.view.cpuUtilization o.pool host
  if cpu < upper then do
    let ram ← o.view.ramUtilization o.pool host
    return ram < upper
  else return false

end Outlook

variable {p : Planner α}

theorem outlook_start (pool : Pool α) (id : Nat) :
    (start pool id).outlook = ⟨pool, id, PlannedLoad.current pool, ∅, ∅⟩ := by
  rw [outlook, start, Tally.view_empty]

/-- A planner that has only been asked for loads. -/
theorem outlook_with_tally {tally : Tally α} (h : tally.view p.pool = p.tally.view p.pool) :
    ({ p with tally } : Planner α).outlook = p.outlook := by
  rw [outlook, outlook, h]

/-- The answer is given, and no other answer changes. -/
structure Answered {β : Type} (p : Planner α) (r : β × Planner α) (answer : β) : Prop where
  answer : r.1 = answer
  outlook : r.2.outlook = p.outlook

theorem eq_ok_of_agrees {β : Type} {x : Checked (β × Planner α)} {y : Checked β}
    (h : Agree p.Answered x y) {answer : β} {q : Planner α} (hx : x = .ok (answer, q)) :
    y = .ok answer ∧ q.outlook = p.outlook := by
  obtain ⟨_, hy, rfl, hsame⟩ := h.eq_ok_left hx
  exact ⟨hy, hsame⟩

theorem firstFit_agrees (p : Planner α) (demand : Resources α) (source : HostId)
    (skip : Std.TreeSet HostId) (upper : α) (targets : List HostId) :
    Agree p.Answered (p.firstFit demand source skip upper targets)
      (p.outlook.firstFit demand source skip upper targets) := by
  induction targets generalizing p with
  | nil => exact ⟨rfl, rfl⟩
  | cons target rest ih =>
    rw [firstFit, Outlook.firstFit]
    refine Agree.ite (fun _ => ih p) fun _ => ?_
    refine (Tally.fits_agrees p.tally p.pool target demand upper).bind ?_
    rintro ⟨fit, tally⟩ _ ⟨rfl, hview⟩
    have hsame : ({ p with tally } : Planner α).outlook = p.outlook := outlook_with_tally hview
    cases fit with
    | true => exact ⟨rfl, hsame⟩
    | false =>
      have hrest := ih { p with tally }
      rw [hsame] at hrest
      exact hrest.mono fun r choice hr => ⟨hr.answer, hr.outlook.trans hsame⟩

theorem isRelieved_agrees (p : Planner α) (host : HostId) (upper : α) :
    Agree p.Answered (p.isRelieved host upper) (p.outlook.isRelieved host upper) := by
  refine (Tally.cpuUtilization_agrees p.tally p.pool host).bind ?_
  rintro ⟨cpu, tally⟩ _ ⟨rfl, hview⟩
  refine Agree.ite (fun _ => ?_) fun _ => ⟨rfl, outlook_with_tally hview⟩
  have hram := Tally.ramUtilization_agrees tally p.pool host
  rw [hview] at hram
  refine hram.bind ?_
  rintro ⟨ram, last⟩ _ ⟨rfl, hlast⟩
  exact ⟨rfl, outlook_with_tally (hlast.trans hview)⟩

end Datacenter.Planner
