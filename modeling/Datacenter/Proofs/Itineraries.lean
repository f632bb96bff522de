import Datacenter.Proofs.Moves

/-!
# Itineraries

The log of a run tells of each VM which migrations it has started, in which one it is, and which
ones were given up because the VM was released. A run can be cut at each recorded event, into the
moves before it, the move that records it, and the rest.

Main statements: `itinerary_append` and `Moves.split`.
-/

namespace Datacenter

variable {α : Type}

/-- A migration that was started. -/
structure Departure (α : Type) where
  start : α
  duration : α
  target : HostId

/-- The time at which the migration is to land. -/
def Departure.finish [Scalar α] (d : Departure α) : α := d.start + d.duration

/-- What a log tells of the migrations of a VM. -/
structure Itinerary (α : Type) where
  /-- All migrations that were started. -/
  made : List (Departure α)
  /-- The migration that the VM is in. -/
  current : Option (Departure α)
  /-- Migrations during which the VM was released. -/
  abandoned : List (Departure α)

namespace Itinerary

def empty : Itinerary α := ⟨[], none, []⟩

/-- The itinerary of a VM after one more event. -/
def next (v : VmId) (it : Itinerary α) (entry : LogEntry α) : Itinerary α :=
  match entry.stamp, entry.event with
  | some stamp, .migrationStarted m duration =>
    if m.vm = v then
      let departure : Departure α := ⟨stamp.time, duration, m.target⟩
      { it with made := departure :: it.made, current := some departure }
    else it
  | _, .migrationCompleted w _ _ => if w = v then { it with current := none } else it
  | _, .vmReleased w _ =>
    if w = v then
      { it with current := none, abandoned := it.current.toList ++ it.abandoned }
    else it
  | _, _ => it

/-- No migration to the host was given up. -/
def NoneAbandoned (it : Itinerary α) (h : HostId) : Prop := ∀ d ∈ it.abandoned, d.target ≠ h

theorem next_of_isNeutral {v : VmId} {it : Itinerary α} {entry : LogEntry α}
    (h : entry.event.isNeutral = true) : it.next v entry = it := by
  obtain ⟨stamp, event⟩ := entry
  cases event with
  | migrationStarted | migrationCompleted | vmReleased => cases h
  | _ => cases stamp <;> rfl

theorem next_current_made {it : Itinerary α} (h : ∀ d, it.current = some d → d ∈ it.made)
    (v : VmId) (entry : LogEntry α) :
    ∀ d, (it.next v entry).current = some d → d ∈ (it.next v entry).made := by
  rw [next]
  split
  · split
    · rintro d ⟨⟩
      exact List.mem_cons_self
    · exact h
  · split
    · rintro d ⟨⟩
    · exact h
  · split
    · rintro d ⟨⟩
    · exact h
  · exact h

end Itinerary

/-- The itinerary of a VM after all events of a log. -/
def itinerary (v : VmId) (log : List (LogEntry α)) : Itinerary α :=
  log.foldl (Itinerary.next v) .empty

theorem itinerary_append (v : VmId) (log events : List (LogEntry α)) :
    itinerary v (log ++ events) = events.foldl (Itinerary.next v) (itinerary v log) := by
  rw [itinerary, List.foldl_append]
  rfl

theorem itinerary_record (v : VmId) (log : List (LogEntry α)) (entry : LogEntry α) :
    itinerary v (log ++ [entry]) = (itinerary v log).next v entry := itinerary_append v log [entry]

theorem itinerary_current_made (v : VmId) (log : List (LogEntry α)) :
    ∀ d, (itinerary v log).current = some d → d ∈ (itinerary v log).made := by
  have hfold : ∀ it : Itinerary α, (∀ d, it.current = some d → d ∈ it.made) →
      ∀ d, (log.foldl (Itinerary.next v) it).current = some d
        → d ∈ (log.foldl (Itinerary.next v) it).made := by
    induction log with
    | nil => exact fun _ h => h
    | cons entry rest ih => exact fun it h => ih _ (Itinerary.next_current_made h v entry)
  exact hfold .empty fun _ hd => nomatch hd

/-! ### Cutting runs -/

namespace Simulation

variable {π : Type} [Scalar α] [AllocationPolicy α π] {rates : α → Prop}
  {sim sim' : Simulation α π} {events before after : List (LogEntry α)} {entry : LogEntry α}

theorem Move.events_eq (h : Move rates sim events sim') :
    events = [] ∨ ∃ entry, events = [entry] := by
  cases h with
  | addVm | wait | leaveQueue | emptyQueue | decide | undo | tick | sample | meter => exact .inl rfl
  | note | addHost | place | release | resize | start | arrive | lapse | fail => exact .inr ⟨_, rfl⟩

theorem Moves.split {log : List (LogEntry α)} (h : Moves rates sim log sim')
    (hlog : log = before ++ entry :: after) :
    ∃ now next, Moves rates sim before now ∧ Move rates now [entry] next
      ∧ Moves rates next after sim' := by
  induction h generalizing after with
  | refl =>
    exact absurd hlog.symm (List.append_ne_nil_of_right_ne_nil _ (List.cons_ne_nil _ _))
  | @tail between last log events run h ih =>
    rcases h.events_eq with rfl | ⟨recorded, rfl⟩
    · -- The last move records nothing, so the event was recorded before it.
      rw [List.append_nil] at hlog
      obtain ⟨now, next, hbefore, hentry, hafter⟩ := ih hlog
      refine ⟨now, next, hbefore, hentry, ?_⟩
      have hall := hafter.tail h
      rw [List.append_nil] at hall
      exact hall
    · rcases List.eq_nil_or_concat after with rfl | ⟨earlier, x, rfl⟩
      · obtain ⟨rfl, hlast⟩ := List.append_inj' hlog rfl
        rw [List.cons.injEq] at hlast
        exact ⟨between, last, run, hlast.1 ▸ h, .refl last⟩
      · rw [List.concat_eq_append] at hlog ⊢
        rw [← List.cons_append, ← List.append_assoc] at hlog
        obtain ⟨hrun, hlast⟩ := List.append_inj' hlog rfl
        obtain ⟨now, next, hbefore, hentry, hafter⟩ := ih hrun
        rw [List.cons.injEq] at hlast
        exact ⟨now, next, hbefore, hentry, hlast.1 ▸ hafter.tail h⟩

theorem Move.of_migrationCompleted {v : VmId} {s t : HostId} (h : Move rates sim [entry] sim')
    (he : entry.event = .migrationCompleted v s t) :
    ∃ flight rest, sim.inFlight = flight :: rest ∧ flight.vm = v ∧ flight.target = t
      ∧ sim.targetOf v = some t
      ∧ entry = (sim.atFinish flight rest).stamped (.migrationCompleted v s t) := by
  cases h with
  | note hneutral =>
    rw [he] at hneutral
    cases hneutral
  | arrive hq ht hfinish =>
    cases he
    exact ⟨_, _, hq, rfl, rfl, ht, rfl⟩
  | addHost | place | release | resize | start | lapse | fail => cases he

end Simulation

end Datacenter
