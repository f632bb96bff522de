import Mathlib.Data.List.Chain
import Datacenter.Proofs.Effects

/-!
# The course of a run

A run leads through one simulation after the other: the one after each command, and within a step
the one after each migration that comes up.

Main statements: `isChain_landed`, `forall_course` and `isChain_course`.
-/

namespace Datacenter.Simulation

variable {α π : Type} [Scalar α] {sim last : Simulation α π}
  {R : Simulation α π → Simulation α π → Prop} {P : Simulation α π → Prop}

/-! ### Steps -/

/-- The simulations after each of the migrations has come up, up to a fault. -/
def landed (sim : Simulation α π) : List (InFlight α) → List (Simulation α π)
  | [] => []
  | flight :: due =>
    match (sim.land flight).result with
    | .ok next => next :: next.landed due
    | .error _ => []

/-- Time when a step ends. -/
def stepEnd (sim : Simulation α π) : α := sim.time + sim.config.stepInterval

/-- The simulations in which migrations of a step come up, before it ends. -/
def landings (sim : Simulation α π) : List (Simulation α π) :=
  (sim.withoutDue sim.stepEnd).landed (sim.dueUntil sim.stepEnd)

/-- What each landing keeps holds of all simulations of a step. What it makes of the simulation
before holds between neighbours. -/
theorem isChain_landed {due : List (InFlight α)} (hstart : P sim)
    (hland : ∀ sim flight next, flight ∈ due → P sim → (sim.land flight).result = .ok next →
      P next ∧ R sim next)
    (h : (Logged.fold land sim due).result = .ok last) :
    (sim :: sim.landed due).IsChain R ∧ (∀ s ∈ sim.landed due, P s)
      ∧ (sim :: sim.landed due).getLast? = some last ∧ P last := by
  rw [Logged.fold_eq_foldlM] at h
  induction due generalizing sim with
  | nil =>
    cases h
    exact ⟨.singleton _, List.forall_mem_nil _, rfl, hstart⟩
  | cons flight due ih =>
    rw [List.foldlM_cons, Logged.result_bind, Checked.bind_eq_ok_iff] at h
    obtain ⟨next, hnext, hrest⟩ := h
    obtain ⟨hp, hr⟩ := hland sim flight next List.mem_cons_self hstart hnext
    have hlater : ∀ sim flight next, flight ∈ due → P sim → (sim.land flight).result = .ok next →
        P next ∧ R sim next :=
      fun sim flight next hmem => hland sim flight next (List.mem_cons_of_mem _ hmem)
    obtain ⟨hchain, hall, hend⟩ := ih hp hlater hrest
    have hlanded : sim.landed (flight :: due) = next :: next.landed due := by
      rw [landed, hnext]
    rw [hlanded]
    exact ⟨hchain.cons_cons hr, List.forall_mem_cons.mpr ⟨hp, hall⟩, hend⟩

theorem forall_landings {landed : Simulation α π} (hstart : P (sim.withoutDue sim.stepEnd))
    (hland : ∀ between flight after, flight ∈ sim.dueUntil sim.stepEnd → P between →
      (between.land flight).result = .ok after → P after)
    (hlanded : (sim.landUntil sim.stepEnd).result = .ok landed) :
    (∀ s ∈ sim.landings, P s) ∧ P landed := by
  rw [landUntil_eq] at hlanded
  have hkeeps : ∀ between flight after, flight ∈ sim.dueUntil sim.stepEnd → P between →
      (between.land flight).result = .ok after → P after ∧ True :=
    fun between flight after hmem hp hone => ⟨hland between flight after hmem hp hone, trivial⟩
  obtain ⟨-, hall, -, hp⟩ := isChain_landed hstart hkeeps hlanded
  exact ⟨hall, hp⟩

theorem isChain_landings {landed next : Simulation α π}
    (hstart : P (sim.withoutDue sim.stepEnd))
    (hhead : ∀ s, R (sim.withoutDue sim.stepEnd) s → R sim s)
    (hland : ∀ between flight after, flight ∈ sim.dueUntil sim.stepEnd → P between →
      (between.land flight).result = .ok after → P after ∧ R between after)
    (hlanded : (sim.landUntil sim.stepEnd).result = .ok landed) (hend : P landed → R landed next) :
    (sim :: (sim.landings ++ [next])).IsChain R := by
  rw [landUntil_eq] at hlanded
  obtain ⟨hchain, -, hlast, hp⟩ := isChain_landed hstart hland hlanded
  -- The landings begin without what is due, and the step with it: only the head differs.
  have hwhole : (sim.withoutDue sim.stepEnd :: sim.landings ++ [next]).IsChain R := by
    refine List.isChain_append.mpr ⟨hchain, .singleton _, fun x hx y hy => ?_⟩
    rw [landings, hlast, Option.mem_some_iff] at hx
    rw [List.head?_cons, Option.mem_some_iff] at hy
    rw [← hx, ← hy]
    exact hend hp
  rw [List.cons_append] at hwhole
  cases hmore : sim.landings ++ [next] with
  | nil => exact .singleton _
  | cons s rest =>
    rw [hmore] at hwhole
    obtain ⟨hfirst, hrest⟩ := List.isChain_cons_cons.mp hwhole
    exact hrest.cons_cons (hhead s hfirst)

/-! ### Runs -/

variable [AllocationPolicy α π]

/-- The simulations that a command leads through before its end. -/
def stages (sim : Simulation α π) : Command α → List (Simulation α π)
  | .step => sim.landings
  | _ => []

/-- The simulations that commands lead through, the one after the last command included. -/
def course (sim : Simulation α π) : List (Command α) → List (Simulation α π)
  | [] => []
  | command :: rest =>
    match (sim.obey command).result with
    | .ok next => sim.stages command ++ next :: next.course rest
    | .error _ => []

theorem course_cons {next : Simulation α π} {command : Command α}
    (h : (sim.obey command).result = .ok next) (rest : List (Command α)) :
    sim.course (command :: rest) = sim.stages command ++ next :: next.course rest := by
  rw [course, h]

theorem getLast?_course {commands : List (Command α)} (h : (sim.run commands).result = .ok last) :
    (sim :: sim.course commands).getLast? = some last := by
  induction commands generalizing sim with
  | nil =>
    cases h
    rfl
  | cons command rest ih =>
    obtain ⟨next, hnext, hrest⟩ := (run_cons_eq_ok_iff _ _ _ _).mp h
    rw [course_cons hnext, ← List.cons_append, List.getLast?_append_of_ne_nil _ (by simp)]
    exact ih hrest

/-- What each command keeps holds along the whole course. -/
theorem forall_course {commands : List (Command α)} (hstart : P sim)
    (hobey : ∀ before command after between next, commands = before ++ command :: after →
      (sim.run before).result = .ok between → P between →
      (between.obey command).result = .ok next → ∀ s ∈ between.stages command ++ [next], P s) :
    ∀ s ∈ sim :: sim.course commands, P s := by
  induction commands generalizing sim with
  | nil => exact List.forall_mem_singleton.mpr hstart
  | cons command rest ih =>
    refine List.forall_mem_cons.mpr ⟨hstart, ?_⟩
    cases hnext : (sim.obey command).result with
    | error e =>
      rw [course, hnext]
      exact List.forall_mem_nil _
    | ok next =>
      have hfirst := hobey [] command rest sim next rfl rfl hstart hnext
      have hlater : ∀ s ∈ next :: next.course rest, P s := by
        refine ih (hfirst next (by simp)) ?_
        intro before later after between after' hsplit hbefore
        have hrun := (run_cons_eq_ok_iff sim between command before).mpr ⟨next, hnext, hbefore⟩
        exact hobey (command :: before) later after between after'
          (congrArg (command :: ·) hsplit) hrun
      intro s hs
      rw [course_cons hnext] at hs
      rcases List.mem_append.mp hs with hs | hs
      · exact hfirst s (List.mem_append_left _ hs)
      · exact hlater s hs

/-- A relation between neighbours in each command is one between neighbours in the whole course. -/
theorem isChain_course {commands : List (Command α)}
    (hobey : ∀ before command after between next, commands = before ++ command :: after →
      (sim.run before).result = .ok between → (between.obey command).result = .ok next →
      (between :: (between.stages command ++ [next])).IsChain R)
    (h : (sim.run commands).result = .ok last) : (sim :: sim.course commands).IsChain R := by
  induction commands generalizing sim with
  | nil => exact .singleton _
  | cons command rest ih =>
    obtain ⟨next, hnext, hrest⟩ := (run_cons_eq_ok_iff _ _ _ _).mp h
    have hfirst := hobey [] command rest sim next rfl rfl hnext
    have hlater : (next :: next.course rest).IsChain R := by
      refine ih ?_ hrest
      intro before later after between after' hsplit hbefore
      have hrun := (run_cons_eq_ok_iff sim between command before).mpr ⟨next, hnext, hbefore⟩
      exact hobey (command :: before) later after between after'
        (congrArg (command :: ·) hsplit) hrun
    rw [course_cons hnext, ← List.cons_append]
    exact List.isChain_split.mpr ⟨hfirst, hlater⟩

end Datacenter.Simulation
