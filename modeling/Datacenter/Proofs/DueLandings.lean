import Mathlib.Data.List.TakeWhile
import Datacenter.Proofs.LandingOrder

/-!
# What a step lands

The migrations in flight stand for a heap, which gives one that no other lands before, and tells
nothing else about an order. A step lands what the heap gives until this finishes too late, and a
landing may read and write the whole simulation, but nothing that is in flight. So whatever order
the heap keeps, the loop lands the due migrations in the order of landing, and ends.

Main statements: `Rounds.fold`, `rounds_of_fold` and `Rounds.eq_dueUntil`.
-/

namespace Datacenter

/-- In a list that is divided by a property, what has it up to the first failure is all that has
it. -/
theorem takeWhile_eq_filter {β : Type} {p : β → Bool} {items : List β}
    (h : items.Pairwise fun a b => p b = true → p a = true) :
    items.takeWhile p = items.filter p ∧ items.dropWhile p = items.filter fun a => !p a := by
  induction items with
  | nil => exact ⟨rfl, rfl⟩
  | cons a rest ih =>
    obtain ⟨hfirst, hrest⟩ := List.pairwise_cons.mp h
    obtain ⟨htake, hdrop⟩ := ih hrest
    cases hp : p a with
    | true => simp [hp, htake, hdrop]
    | false =>
      have hnone : ∀ b ∈ rest, p b = false := by
        intro b hb
        exact Bool.eq_false_iff.mpr fun hpb => Bool.false_ne_true (hp ▸ hfirst b hb hpb)
      have hall : rest.filter p = [] := by simpa using hnone
      have hkeep : (rest.filter fun b => !p b) = rest := by simpa using hnone
      simp [hp, hall, hkeep]

namespace InFlight

variable {α : Type} [Scalar α]

/-- The heap gives this migration first, which no other one lands before, and keeps the rest. -/
structure Pops (heap : List (InFlight α)) (flight : InFlight α) (rest : List (InFlight α)) :
    Prop where
  perm : heap.Perm (flight :: rest)
  least : ∀ other ∈ rest, ¬other.landsBefore flight = true

/-- A heap whose migrations are known in their order gives the first one of them. -/
theorem Pops.eq_cons {heap rest queue : List (InFlight Float)} {flight : InFlight Float}
    (h : Pops heap flight rest) (hperm : heap.Perm queue)
    (hqueue : queue.Pairwise fun a b => a.key < b.key) :
    ∃ later, queue = flight :: later ∧ rest.Perm later := by
  have hperm' : (flight :: rest).Perm queue := h.perm.symm.trans hperm
  cases queue with
  | nil => exact absurd hperm'.length_eq (by simp)
  | cons first later =>
    obtain ⟨hfirst, -⟩ := List.pairwise_cons.mp hqueue
    have heq : flight = first := by
      by_contra hne
      -- The first one is in the rest, and lands before what the heap has given.
      have hlater : flight ∈ later :=
        (List.mem_cons.mp (hperm'.mem_iff.mp List.mem_cons_self)).resolve_left hne
      have hrest : first ∈ rest :=
        (List.mem_cons.mp (hperm'.mem_iff.mpr List.mem_cons_self)).resolve_left (Ne.symm hne)
      exact h.least first hrest ((landsBefore_iff _ _).mpr (hfirst flight hlater))
    subst heq
    exact ⟨later, rfl, hperm'.cons_inv⟩

theorem pops_cons {flight : InFlight Float} {rest : List (InFlight Float)}
    (h : (flight :: rest).Pairwise fun a b => a.key < b.key) :
    Pops (flight :: rest) flight rest := by
  refine ⟨.refl _, fun other hother hbefore => ?_⟩
  exact lt_asymm ((List.pairwise_cons.mp h).1 other hother) ((landsBefore_iff _ _).mp hbefore)

end InFlight

namespace Simulation

/-! ### The loop -/

section

variable {α π : Type} [Scalar α] {sim last : Simulation α π}

/-- Rounds of the loop, with the migrations that they land: what the heap gives first is taken out
and landed, unless it finishes after the limit. -/
inductive Rounds (limit : α) : Simulation α π → List (InFlight α) → Simulation α π → Prop where
  | done (sim : Simulation α π) : Rounds limit sim [] sim
  | next {sim between last : Simulation α π} {flight : InFlight α} {rest due : List (InFlight α)}
      (pops : InFlight.Pops sim.inFlight flight rest) (inTime : ¬limit < flight.finish)
      (lands : (land { sim with inFlight := rest } flight).result = .ok between)
      (later : Rounds limit between due last) : Rounds limit sim (flight :: due) last

/-- The loop is over: what the heap gives first, if anything, finishes after the limit. -/
def LoopOver (limit : α) (sim : Simulation α π) : Prop :=
  ∀ flight rest, InFlight.Pops sim.inFlight flight rest → limit < flight.finish

/-- Landing does not look at what else is in flight. -/
theorem land_with {flight : InFlight α} (h : (sim.land flight).result = .ok last)
    (queue : List (InFlight α)) :
    (land { sim with inFlight := queue } flight).result
      = .ok { last with inFlight := queue } := by
  simp only [land, complete, Logged.result_bind, Checked.bind_eq_ok_iff] at h ⊢
  obtain ⟨between, hbetween, h⟩ := h
  cases h
  refine ⟨{ between with inFlight := queue }, ?_, rfl⟩
  split at hbetween
  · rename_i htarget
    cases hbetween
    rw [if_pos htarget]
    rfl
  · rename_i htarget
    rw [if_neg htarget]
    simp only [Logged.result_bind, Logged.result_lift, Checked.bind_eq_ok_iff] at hbetween ⊢
    obtain ⟨landed, hlanded, hbetween⟩ := hbetween
    refine ⟨landed, hlanded, ?_⟩
    cases landed with
    | ok r =>
      cases hbetween
      rfl
    | error reason =>
      cases hbetween
      rfl

end

variable {π : Type} {sim last : Simulation Float π} {limit : Float}
  {popped queue : List (InFlight Float)}

/-- Whatever order the heap keeps, the loop lands migrations from the front of the queue, as if they
had been taken out together. -/
theorem Rounds.fold (h : sim.Rounds limit popped last) (hperm : sim.inFlight.Perm queue)
    (hqueue : queue.Pairwise fun a b => a.key < b.key) :
    ∃ later, queue = popped ++ later ∧ last.inFlight.Perm later
      ∧ (∀ f ∈ popped, ¬limit < f.finish)
      ∧ ∀ rest, (Logged.fold land { sim with inFlight := rest } popped).result
        = .ok { last with inFlight := rest } := by
  simp only [Logged.fold_eq_foldlM]
  induction h generalizing queue with
  | done sim => exact ⟨queue, rfl, hperm, List.forall_mem_nil _, fun _ => rfl⟩
  | @next sim between last flight rest due pops inTime lands _ ih =>
    obtain ⟨later, rfl, hlater⟩ := pops.eq_cons hperm hqueue
    have hkept : between.inFlight = rest := inFlight_of_land lands
    rw [← hkept] at hlater
    obtain ⟨rest, rfl, hrest, hdue, hfold⟩ := ih hlater (List.pairwise_cons.mp hqueue).2
    refine ⟨rest, rfl, hrest, List.forall_mem_cons.mpr ⟨inTime, hdue⟩, fun kept => ?_⟩
    rw [List.foldlM_cons, Logged.result_bind, land_with lands kept]
    exact hfold kept

theorem rounds_of_fold {later : List (InFlight Float)} (hsim : sim.inFlight = popped ++ later)
    (hqueue : (popped ++ later).Pairwise fun a b => a.key < b.key)
    (hdue : ∀ f ∈ popped, ¬limit < f.finish)
    (h : (Logged.fold land { sim with inFlight := later } popped).result = .ok last) :
    sim.Rounds limit popped last := by
  rw [Logged.fold_eq_foldlM] at h
  induction popped generalizing sim with
  | nil =>
    cases h
    rw [List.nil_append] at hsim
    rw [← hsim]
    exact .done sim
  | cons flight rest ih =>
    rw [List.foldlM_cons, Logged.result_bind, Checked.bind_eq_ok_iff] at h
    obtain ⟨next, hnext, hrest⟩ := h
    obtain ⟨hfirst, hlate⟩ := List.forall_mem_cons.mp hdue
    have hkept : next.inFlight = later := inFlight_of_land hnext
    refine .next (hsim ▸ InFlight.pops_cons hqueue) hfirst (land_with hnext (rest ++ later)) ?_
    refine ih rfl (List.pairwise_cons.mp hqueue).2 hlate ?_
    rw [← hkept]
    exact hrest

/-- The loop never lands anything but what is due, from the front. -/
theorem Rounds.isPrefix {time : Float} (hline : sim.InLine)
    (h : sim.Rounds (time + Scalar.epsilon) popped last) : popped <+: sim.dueUntil time := by
  obtain ⟨later, hsim, -, hdue, -⟩ := h.fold (.refl _) hline.ordered
  rw [dueUntil, hsim, List.takeWhile_append_of_pos (by simpa using hdue)]
  exact List.prefix_append _ _

/-- When the loop is over, it has landed what is due, and nothing else. -/
theorem Rounds.eq_dueUntil {time : Float} (hline : sim.InLine)
    (h : sim.Rounds (time + Scalar.epsilon) popped last)
    (hover : LoopOver (time + Scalar.epsilon) last) :
    popped = sim.dueUntil time ∧ last.inFlight.Perm (sim.withoutDue time).inFlight
      ∧ (sim.landUntil time).result
        = .ok { last with inFlight := (sim.withoutDue time).inFlight } := by
  obtain ⟨later, hsim, hlast, hdue, hfold⟩ := h.fold (.refl _) hline.ordered
  have hall : ∀ f ∈ popped, (!decide (time + Scalar.epsilon < f.finish)) = true := by
    simpa using hdue
  have hsplit : sim.dueUntil time = popped ∧ (sim.withoutDue time).inFlight = later := by
    rw [dueUntil, withoutDue, hsim, List.takeWhile_append_of_pos hall,
      List.dropWhile_append_of_pos hall]
    cases later with
    | nil => exact ⟨List.append_nil _, rfl⟩
    | cons f rest =>
      have hordered := hline.ordered
      rw [hsim] at hordered
      have hpops := InFlight.pops_cons (List.pairwise_append.mp hordered).2.1
      have hlate := hover f rest ⟨hlast.trans hpops.perm, hpops.least⟩
      simp [hlate]
  refine ⟨hsplit.1.symm, hsplit.2 ▸ hlast, ?_⟩
  rw [landUntil_eq, hsplit.1]
  exact hfold _

/-- If all due migrations land, the loop has landed them. -/
theorem rounds_of_landUntil {time : Float} {landed : Simulation Float π} (hline : sim.InLine)
    (h : (sim.landUntil time).result = .ok landed) :
    sim.Rounds (time + Scalar.epsilon) (sim.dueUntil time) landed
      ∧ LoopOver (time + Scalar.epsilon) landed := by
  have hsim : sim.inFlight = sim.dueUntil time ++ (sim.withoutDue time).inFlight :=
    List.takeWhile_append_dropWhile.symm
  have hordered := hline.ordered
  rw [hsim] at hordered
  refine ⟨rounds_of_fold hsim hordered (fun f hf => ?_) h, fun flight rest hpops => ?_⟩
  · simpa using List.mem_takeWhile_imp hf
  · rw [(landUntil_flights h).1] at hpops
    obtain ⟨later, hlater, -⟩ := hpops.eq_cons (.refl _) (List.pairwise_append.mp hordered).2.1
    have hlate := List.head?_dropWhile_not
      (fun f : InFlight Float => !decide (time + Scalar.epsilon < f.finish)) sim.inFlight
    have hhead : (sim.inFlight.dropWhile fun f => !decide (time + Scalar.epsilon < f.finish))
        = flight :: later := hlater
    rw [hhead] at hlate
    simpa using hlate

/-! ### What is due -/

/-- The migrations in flight that finish within the next step, up to the tolerance. -/
def dueInStep (sim : Simulation Float π) : List (InFlight Float) :=
  sim.inFlight.filter fun f => f.finish ≤ sim.stepEnd + Scalar.epsilon

/-- The migrations in flight that finish later. -/
def lateForStep (sim : Simulation Float π) : List (InFlight Float) :=
  sim.inFlight.filter fun f => !decide (f.finish ≤ sim.stepEnd + Scalar.epsilon)

/-- The clock and the interval are finite, and all migrations finish at times that are numbers. -/
structure Timely (sim : Simulation Float π) : Prop where
  time : sim.time.isFinite = true
  interval : sim.config.stepInterval.isFinite = true
  finish : ∀ f ∈ sim.inFlight, f.finish.isNaN = false

theorem Timely.limit_le_self (h : sim.Timely) :
    sim.stepEnd + Scalar.epsilon ≤ sim.stepEnd + Scalar.epsilon := by
  have hepsilon : (Scalar.epsilon : Float).isFinite = true := by decide +kernel
  exact float_le_self_add (float_le_self_add (float_le_self_of_isFinite h.time) h.interval) hepsilon

theorem Timely.finish_le_self (h : sim.Timely) {f : InFlight Float} (hf : f ∈ sim.inFlight) :
    f.finish ≤ f.finish := (float_le_self_iff _).mpr (h.finish f hf)

/-- What comes up before the first late migration is all that is due. -/
theorem Timely.dueUntil_eq (h : sim.Timely) (hline : sim.InLine) :
    sim.dueUntil sim.stepEnd = sim.dueInStep
      ∧ (sim.withoutDue sim.stepEnd).inFlight = sim.lateForStep := by
  have hlimit : ∀ f ∈ sim.inFlight, (!decide (sim.stepEnd + Scalar.epsilon < f.finish))
      = decide (f.finish ≤ sim.stepEnd + Scalar.epsilon) := by
    intro f hf
    rw [← decide_not, decide_eq_decide]
    exact float_not_lt_iff h.limit_le_self (h.finish_le_self hf)
  have hordered : sim.inFlight.Pairwise fun a b =>
      (!decide (sim.stepEnd + Scalar.epsilon < b.finish)) = true
        → (!decide (sim.stepEnd + Scalar.epsilon < a.finish)) = true := by
    refine hline.ordered.imp_of_mem fun {a b} ha hb hkey hdue => ?_
    have hrank : timeRank a.finish ≤ timeRank b.finish :=
      (Prod.Lex.toLex_lt_toLex.mp hkey).elim le_of_lt fun heq => heq.1.le
    rw [Bool.not_eq_true', decide_eq_false_iff_not, ← timeRank_lt_iff (h.finish_le_self hb)] at hdue
    rw [Bool.not_eq_true', decide_eq_false_iff_not, ← timeRank_lt_iff (h.finish_le_self ha)]
    exact fun hlate => hdue (hlate.trans_le hrank)
  obtain ⟨htake, hdrop⟩ := takeWhile_eq_filter hordered
  refine ⟨htake.trans (List.filter_congr hlimit), hdrop.trans (List.filter_congr fun f hf => ?_)⟩
  rw [hlimit f hf]

/-- Due migrations come up in the order of their ends, and in that of their starts if they end
together. -/
theorem Timely.pairwise_dueInStep (h : sim.Timely) (hline : sim.InLine) :
    sim.dueInStep.Pairwise fun a b =>
      a.finish ≤ b.finish ∧ (b.finish ≤ a.finish → a.number < b.number) := by
  refine (hline.ordered.imp_of_mem fun {a b} ha hb hkey => ?_).filter _
  have ha' := h.finish_le_self ha
  have hb' := h.finish_le_self hb
  rw [← timeRank_le_iff ha' hb', ← timeRank_le_iff hb' ha']
  rcases Prod.Lex.toLex_lt_toLex.mp hkey with hlt | ⟨heq, hnumber⟩
  · exact ⟨hlt.le, fun hle => absurd hle (not_le_of_gt hlt)⟩
  · exact ⟨heq.le, fun _ => hnumber⟩

variable {rates : Float → Prop} [AllocationPolicy Float π]

/-- The loop that lands migrations makes a round for each migration that is due, whatever order the
heap keeps: they land in the order of their ends, and of their starts if they end together. A step
lands them all, keeps the others, and adds those of a plan that its own pass has started. It ends an
interval after its beginning. -/
theorem step_lands_due (hr : sim.Reachable rates) (ht : sim.Timely) :
    (sim.dueInStep.Pairwise fun a b =>
      a.finish ≤ b.finish ∧ (b.finish ≤ a.finish → a.number < b.number))
    ∧ (∀ popped last, sim.Rounds (sim.stepEnd + Scalar.epsilon) popped last →
      popped <+: sim.dueInStep
      ∧ (LoopOver (sim.stepEnd + Scalar.epsilon) last →
        popped = sim.dueInStep ∧ last.inFlight.Perm sim.lateForStep
        ∧ (sim.landUntil sim.stepEnd).result = .ok { last with inFlight := sim.lateForStep }))
    ∧ ∀ sim', sim.step.result = .ok sim' →
      sim'.time = sim.time + sim.config.stepInterval
      ∧ ∃ landed retried added,
        sim.Rounds (sim.stepEnd + Scalar.epsilon) sim.dueInStep landed
        ∧ LoopOver (sim.stepEnd + Scalar.epsilon) landed
        ∧ (retryPending { landed with time := sim.stepEnd }).result = .ok retried
        ∧ sim'.inFlight.Perm (sim.lateForStep ++ added)
        ∧ (∀ f ∈ sim.inFlight, f.number ≤ sim.started) ∧ (∀ f ∈ added, sim.started < f.number)
        ∧ (added ≠ [] → retried.monitoringDue = true ∧ retried.PassLaunched added sim') := by
  have hline := hr.inLine
  obtain ⟨hdue, hlate⟩ := ht.dueUntil_eq hline
  refine ⟨ht.pairwise_dueInStep hline, fun popped last hrounds => ⟨?_, fun hover => ?_⟩,
    fun sim' hstep => ?_⟩
  · exact hdue ▸ hrounds.isPrefix hline
  · obtain ⟨hpopped, hlast, hlanded⟩ := hrounds.eq_dueUntil hline hover
    rw [hdue] at hpopped
    rw [hlate] at hlast hlanded
    exact ⟨hpopped, hlast, hlanded⟩
  · obtain ⟨landed, retried, hlanded, hretried, hsame, hend⟩ := step_flights hstep
    obtain ⟨hrounds, hover⟩ := rounds_of_landUntil hline hlanded
    obtain ⟨hflights, hstarted⟩ := landUntil_flights hlanded
    rw [hdue] at hrounds
    have hqueue : retried.inFlight = sim.lateForStep := hsame.flights.trans (hflights.trans hlate)
    have hcount : retried.started = sim.started := hsame.started.trans hstarted
    have htime : retried.time = sim.time + sim.config.stepInterval := hsame.time
    rcases hend with hsame' | ⟨hmonitoring, added, hpass⟩
    · refine ⟨hsame'.time.trans htime, landed, retried, [], hrounds, hover, hretried, ?_,
        hline.numbered, List.forall_mem_nil _, absurd rfl⟩
      rw [hsame'.flights, hqueue, List.append_nil]
    · obtain ⟨hmigrates, plan, policy, hplan, hlaunched⟩ := hpass
      exact ⟨hlaunched.time.trans htime, landed, retried, added, hrounds, hover, hretried,
        hqueue ▸ hlaunched.perm, hline.numbered, hcount ▸ hlaunched.started_lt,
        fun _ => ⟨hmonitoring, hmigrates, plan, policy, hplan, hlaunched⟩⟩

/-- Three migrations are on their way. The last two end together, and the first one takes long. -/
def crowdedRun : List (Command Float) :=
  let host : HostSpec Float := ⟨"host", 4, 1000, 8192, 1000, 100000, .linear 200 0.5⟩
  let vm (bandwidth : UInt64) : VmSpec Float := ⟨"tenant", 1, 100, 1024, bandwidth, 1000⟩
  [.addHost host, .addHost host, .submitVm (vm 0), .submitVm (vm 0), .submitVm (vm 100),
    .submitVm (vm 0), .applyPlan [planned 2 0 1, planned 0 0 1, planned 1 0 1]]

/-- The first pass moves the fourth VM. -/
def crowdedStart : Simulation Float (Scripted Float) :=
  let thresholds : Thresholds Float := ⟨0.8, 0.3⟩
  create ⟨"datacenter", "Scripted", thresholds, 30, 30, 3, true, 0.5, [], []⟩
    ⟨[(0, 0), (1, 0), (2, 0), (3, 0)], [[⟨3, 0, 1, .distribute, true⟩]], ⟨none⟩⟩ 7

theorem crowdedRun_step : ∃ sim sim', (crowdedStart.run crowdedRun).result = .ok sim
    ∧ sim.Reachable (fun _ => True) ∧ sim.Timely ∧ sim.step.result = .ok sim'
    ∧ sim.dueInStep.map (·.number) = [2, 3] ∧ sim.lateForStep.map (·.number) = [1]
    ∧ sim'.time = sim.time + sim.config.stepInterval
    ∧ sim'.inFlight.map (·.number) = [4, 1]
    ∧ ∃ added, sim'.inFlight.Perm (sim.lateForStep ++ added)
      ∧ ∀ f ∈ added, sim.started < f.number := by
  have hrun : ((crowdedStart.run crowdedRun).result.toOption.any fun sim =>
      sim.time.isFinite && sim.config.stepInterval.isFinite
        && sim.inFlight.all (fun f => f.finish.isNaN == false)
        && sim.dueInStep.map (·.number) == [2, 3] && sim.lateForStep.map (·.number) == [1]
        && sim.step.result.toOption.any fun sim' => sim'.inFlight.map (·.number) == [4, 1])
        = true := by
    decide +kernel
  obtain ⟨sim, hsim, htest⟩ := Checked.eq_ok_of_any hrun
  simp only [Bool.and_eq_true, beq_iff_eq, List.all_eq_true] at htest
  obtain ⟨⟨⟨⟨⟨htime, hinterval⟩, hfinish⟩, hdue⟩, hlate⟩, hstep⟩ := htest
  obtain ⟨sim', hsim', hnumbers⟩ := Checked.eq_ok_of_any hstep
  have hr := reachable_of_run hsim
  obtain ⟨-, -, hlands⟩ := step_lands_due hr ⟨htime, hinterval, hfinish⟩
  obtain ⟨hend, -, -, added, -, -, -, hperm, -, hnew, -⟩ := hlands sim' hsim'
  exact ⟨sim, sim', hsim, hr, ⟨htime, hinterval, hfinish⟩, hsim', hdue, hlate, hend,
    beq_iff_eq.mp hnumbers, added, hperm, hnew⟩

end Simulation

end Datacenter
