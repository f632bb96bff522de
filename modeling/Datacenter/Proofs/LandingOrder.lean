import Datacenter.Proofs.FloatNumbers
import Datacenter.Proofs.Launches

/-!
# The order of landing

Migrations land in the order of the times at which they finish, and those that finish at the same
time in the order in which they were started. A time that is no number comes last. No two started
migrations have the same number, so the queue of a simulation is in strict order.

Main statements: `comesBefore_iff`, `landsBefore_iff` and `Reachable.inLine`.
-/

namespace Datacenter

/-! ### Points in time -/

/-- Rank of a point in time, above those of all numbers if it is none. -/
def timeRank (time : Float) : ℤ ×ₗ ℤ ×ₗ ℤ :=
  (floatRank time.toModel.unpack).getD (toLex (3, toLex (0, 0)))

theorem floatRank_lt {x : Float.Model.UnpackedFloat} {rank : ℤ ×ₗ ℤ ×ₗ ℤ}
    (h : floatRank x = some rank) : rank < toLex (3, toLex (0, 0)) := by
  have hkind : (ofLex rank).1 ≤ 2 := by
    cases x with
    | notANumber => cases h
    | zero sign =>
      cases h
      exact show (0 : ℤ) ≤ 2 by decide
    | infinity sign =>
      cases sign with
      | negative =>
        cases h
        exact show (-2 : ℤ) ≤ 2 by decide
      | positive =>
        cases h
        exact le_refl (2 : ℤ)
    | finite sign mantissa exponent =>
      cases sign with
      | negative =>
        cases h
        exact show (-1 : ℤ) ≤ 2 by decide
      | positive =>
        cases h
        exact show (1 : ℤ) ≤ 2 by decide
  exact Prod.Lex.toLex_lt_toLex.mpr (.inl (Int.lt_of_le_of_lt hkind (by decide)))

theorem comesBefore_iff (a b : Float) :
    Scalar.comesBefore a b = true ↔ timeRank a < timeRank b := by
  rw [Scalar.comesBefore, timeRank, timeRank, Bool.or_eq_true, Bool.and_eq_true, Bool.not_eq_true',
    decide_eq_true_iff, decide_eq_true_iff, decide_eq_false_iff_not, float_lt_iff, float_le_iff,
    float_le_iff]
  cases ha : floatRank a.toModel.unpack with
  | none =>
    cases hb : floatRank b.toModel.unpack with
    | none => simp
    | some y => simp [(floatRank_lt hb).le]
  | some x =>
    cases hb : floatRank b.toModel.unpack with
    | none => simp [floatRank_lt ha]
    | some y => simp

theorem timeRank_lt_iff {a b : Float} (hb : b ≤ b) : timeRank a < timeRank b ↔ a < b := by
  rw [← comesBefore_iff, Scalar.comesBefore]
  simp [hb]

theorem timeRank_le_iff {a b : Float} (ha : a ≤ a) (hb : b ≤ b) :
    timeRank a ≤ timeRank b ↔ a ≤ b := by
  rw [← not_lt, timeRank_lt_iff ha, float_not_lt_iff hb ha]

namespace InFlight

/-! ### Migrations in flight -/

/-- What decides when a migration lands. -/
def key (f : InFlight Float) : (ℤ ×ₗ ℤ ×ₗ ℤ) ×ₗ ℕ := toLex (timeRank f.finish, f.number)

theorem landsBefore_iff (a b : InFlight Float) : a.landsBefore b = true ↔ a.key < b.key := by
  rw [landsBefore, Bool.or_eq_true, Bool.and_eq_true, Bool.not_eq_true', ← Bool.not_eq_true,
    comesBefore_iff, comesBefore_iff, decide_eq_true_iff, key, key, Prod.Lex.toLex_lt_toLex, not_lt]
  constructor
  · rintro (hlt | ⟨hle, hnumber⟩)
    · exact .inl hlt
    · exact hle.lt_or_eq.imp_right fun heq => ⟨heq, hnumber⟩
  · rintro (hlt | ⟨heq, hnumber⟩)
    · exact .inl hlt
    · exact .inr ⟨heq.le, hnumber⟩

/-- Each migration lands before those behind it, and none has a number above the given one. -/
structure InLine (count : ℕ) (queue : List (InFlight Float)) : Prop where
  ordered : queue.Pairwise fun a b => a.key < b.key
  numbered : ∀ f ∈ queue, f.number ≤ count

theorem pairwise_enqueue_key {f : InFlight Float} {queue : List (InFlight Float)}
    (h : queue.Pairwise fun a b => a.key < b.key) (hnew : ∀ x ∈ queue, x.number < f.number) :
    (f.enqueue queue).Pairwise fun a b => a.key < b.key := by
  refine pairwise_enqueue_of lt_trans (fun x _ hbefore => ?_) (fun x hx hafter => ?_) h
  · exact (landsBefore_iff f x).mp hbefore
  · rw [landsBefore_iff, not_lt] at hafter
    -- The numbers differ, so the keys do.
    exact lt_of_le_of_ne hafter fun heq =>
      (hnew x hx).ne (congrArg (fun key => (ofLex key).2) heq)

namespace InLine

variable {count : ℕ} {queue : List (InFlight Float)}

theorem of_sublist {part : List (InFlight Float)} (h : InLine count queue)
    (hpart : part.Sublist queue) : InLine count part :=
  ⟨h.ordered.sublist hpart, fun f hf => h.numbered f (hpart.mem hf)⟩

theorem enqueue {f : InFlight Float} (h : InLine count queue) (hf : f.number = count + 1) :
    InLine (count + 1) (f.enqueue queue) := by
  have hnew : ∀ x ∈ queue, x.number < f.number := by
    intro x hx
    rw [hf]
    exact Nat.lt_succ_of_le (h.numbered x hx)
  refine ⟨pairwise_enqueue_key h.ordered hnew, fun x hx => ?_⟩
  rcases (mem_enqueue_iff _ _ _).mp hx with rfl | hx
  · exact hf.le
  · exact (h.numbered x hx).trans (Nat.le_succ count)

theorem enqueueAll {added : List (InFlight Float)} (h : InLine count queue)
    (hadded : added.map (·.number) = List.range' (count + 1) added.length) :
    InLine (count + added.length) (added.foldl (fun queue f => f.enqueue queue) queue) := by
  induction added generalizing count queue with
  | nil => exact h
  | cons f rest ih =>
    rw [List.map_cons, List.length_cons, List.range'_succ, List.cons.injEq] at hadded
    rw [List.foldl_cons, List.length_cons, Nat.add_comm rest.length 1, ← Nat.add_assoc]
    exact ih (h.enqueue hadded.1) hadded.2

end InLine

end InFlight

namespace Simulation

variable {π : Type} {sim sim' : Simulation Float π} {plan : List (Migration Float)}
  {added : List (InFlight Float)}

/-! ### Queues of simulations -/

/-- The migrations in flight are in the order of landing, and the numbers that are still to be given
are new. -/
def InLine (sim : Simulation Float π) : Prop := InFlight.InLine sim.started sim.inFlight

theorem InLine.of_sameFlights (h : sim.InLine) (hsame : sim.SameFlights sim') : sim'.InLine := by
  rw [InLine, hsame.flights, hsame.started]
  exact h

theorem InLine.of_launched (h : sim.InLine) (hl : Launched sim plan added sim') : sim'.InLine := by
  have hnumbers := hl.numbers
  rw [← hl.length] at hnumbers
  rw [InLine, hl.flights, hl.started, ← hl.length]
  exact InFlight.InLine.enqueueAll h hnumbers

variable [AllocationPolicy Float π]

theorem InLine.step (h : sim.InLine) (hstep : sim.step.result = .ok sim') : sim'.InLine := by
  obtain ⟨landed, retried, hlanded, -, hretried, hend⟩ := step_flights hstep
  obtain ⟨hflights, hstarted⟩ := landUntil_flights hlanded
  have hrest : InLine { landed with time := sim.stepEnd } := by
    rw [InLine, hflights, hstarted]
    exact InFlight.InLine.of_sublist h (List.dropWhile_sublist _)
  have hretriedLine := hrest.of_sameFlights hretried
  rcases hend with hsame | ⟨-, added, -, plan, policy, -, hlaunched⟩
  · exact hretriedLine.of_sameFlights hsame
  · exact hretriedLine.of_launched hlaunched

/-- The queue of every simulation that commands lead to is in order, whatever the policy does. -/
theorem Reachable.inLine {rates : Float → Prop} (h : sim.Reachable rates) : sim.InLine := by
  obtain ⟨config, policy, id, commands, -, hrun⟩ := h
  have hcreate : (create config policy id).InLine := ⟨List.Pairwise.nil, List.forall_mem_nil _⟩
  refine run_invariant hcreate ?_ hrun
  intro before command after sim next _ _ hline hnext
  rcases obey_flights hnext with hsame | ⟨plan, added, hlaunched⟩ | ⟨-, hstep⟩
  · exact hline.of_sameFlights hsame
  · exact hline.of_launched hlaunched
  · exact hline.step hstep

end Simulation

end Datacenter
