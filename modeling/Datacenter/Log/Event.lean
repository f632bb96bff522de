import Datacenter.Classification
import Datacenter.Migration

/-!
# Events of a run

What happens in a run is recorded as events, each of a level. Events of a simulation are stamped
with its time and its name. An operation that ends in a fault keeps the events before it.
-/

namespace Datacenter

/-- Importance of an event, from the most important one. -/
inductive Level where
  | error
  | warn
  | info
  | debug
  | trace
  deriving DecidableEq

namespace Level

def all : List Level := [error, warn, info, debug, trace]

def name : Level → String
  | error => "ERROR"
  | warn => "WARN"
  | info => "INFO"
  | debug => "DEBUG"
  | trace => "TRACE"

def rank : Level → Nat
  | error => 0
  | warn => 1
  | info => 2
  | debug => 3
  | trace => 4

/-- The level is at least as important as the limit. Without a limit nothing is. -/
def within (level : Level) (limit : Option Level) : Bool :=
  limit.any (level.rank ≤ ·.rank)

end Level

/-- Why a VM is not placed. -/
inductive PlacementError where
  | vmNotFound (vm : VmId)
  | noSuitableHost (vm : VmId)
  | rejected (vm : VmId) (host : HostId) (reason : Refusal)
  deriving DecidableEq

def PlacementError.message : PlacementError → String
  | .vmNotFound vm => "vm #" ++ toString vm ++ " does not exist"
  | .noSuitableHost vm => "no suitable host for vm #" ++ toString vm
  | .rejected vm host reason =>
    "host #" ++ toString host ++ " rejected vm #" ++ toString vm ++ ": " ++ reason.message

inductive Event (α : Type) where
  | restoreFailed (failure : RestoreFailure)
  | hostClassified (classification : Classification α)
  | hostNotRelieved (host : HostId)
  | hostNotConsolidated (host : HostId)
  | hostAdded (host : HostId) (name : String)
  | vmPlaced (vm : VmId) (host : HostId)
  | vmNotPlaced (vm : VmId) (error : PlacementError)
  | vmReleased (vm : VmId) (host : HostId)
  | vmResized (vm : VmId) (mips : α)
  | vmNotResized (vm : VmId) (reason : Refusal)
  | planMade (size : Nat)
  | planRejected (rejection : PlanRejection)
  | migrationStarted (migration : Migration α) (duration : α)
  | migrationCancelled (vm : VmId)
  | migrationCompleted (vm : VmId) (source target : HostId)
  | migrationFailed (vm : VmId) (reason : Refusal)
  | stepMade

def Event.level {α : Type} : Event α → Level
  | restoreFailed _ | planRejected _ | migrationFailed _ _ => .error
  | hostNotRelieved _ | vmNotPlaced _ _ => .warn
  | vmPlaced _ _ | vmReleased _ _ | vmNotResized _ _ | migrationStarted _ _
  | migrationCompleted _ _ _ => .info
  | hostClassified _ | hostNotConsolidated _ | hostAdded _ _ | planMade _ => .debug
  | vmResized _ _ | migrationCancelled _ | stepMade => .trace

/-- Time and name of the simulation that an event belongs to. -/
structure Stamp (α : Type) where
  time : α
  name : String

structure LogEntry (α : Type) where
  stamp : Option (Stamp α)
  event : Event α

/-- A value or a fault, and the events up to it. -/
structure Logged (α β : Type) where
  events : List (LogEntry α)
  result : Checked β

namespace Logged

variable {α β γ : Type}

def bind (x : Logged α β) (f : β → Logged α γ) : Logged α γ :=
  match x.result with
  | .ok value =>
    let y := f value
    ⟨x.events ++ y.events, y.result⟩
  | .error e => ⟨x.events, .error e⟩

instance : Monad (Logged α) where
  pure value := ⟨[], .ok value⟩
  bind := Logged.bind

instance : MonadLift Checked (Logged α) where
  monadLift result := ⟨[], result⟩

/-- Records an event without a stamp. -/
def note (event : Event α) : Logged α Unit := ⟨[⟨none, event⟩], .ok ()⟩

/-- Records an event with a stamp. -/
def noteAt (stamp : Stamp α) (event : Event α) : Logged α Unit := ⟨[⟨some stamp, event⟩], .ok ()⟩

/-- Records events without stamps. -/
def noteAll (events : List (Event α)) : Logged α Unit :=
  ⟨events.map fun event => ⟨none, event⟩, .ok ()⟩

def fail (e : Fault) : Logged α β := ⟨[], .error e⟩

/-- Repeats an action as long as the state asks for it, at most the given number of times. The
events before it are given with the latest one first. -/
def iterateFrom (goesOn : β → Bool) (act : β → Logged α β) (past : List (LogEntry α)) (state : β) :
    Nat → Logged α β
  | 0 => ⟨past.reverse, .ok state⟩
  | count + 1 =>
    if goesOn state then
      let run := act state
      let past := run.events.reverse ++ past
      match run.result with
      | .ok state => iterateFrom goesOn act past state count
      | .error e => ⟨past.reverse, .error e⟩
    else ⟨past.reverse, .ok state⟩

/-- Repeats an action as long as the state asks for it, at most the given number of times. -/
def iterate (goesOn : β → Bool) (act : β → Logged α β) (state : β) (count : Nat) : Logged α β :=
  iterateFrom goesOn act [] state count

/-- Acts on each item in turn, starting with a state. The events before it are given with the latest
one first. -/
def foldFrom (act : β → γ → Logged α β) (past : List (LogEntry α)) (state : β) :
    List γ → Logged α β
  | [] => ⟨past.reverse, .ok state⟩
  | item :: rest =>
    let run := act state item
    let past := run.events.reverse ++ past
    match run.result with
    | .ok state => foldFrom act past state rest
    | .error e => ⟨past.reverse, .error e⟩

/-- Acts on each item in turn, starting with a state. -/
def fold (act : β → γ → Logged α β) (state : β) (items : List γ) : Logged α β :=
  foldFrom act [] state items

/-! ### Sequencing -/

@[simp] theorem result_pure (value : β) : (pure value : Logged α β).result = .ok value := rfl

@[simp] theorem events_pure (value : β) : (pure value : Logged α β).events = [] := rfl

/-- The values of a sequence do not depend on its events. -/
@[simp] theorem result_bind (x : Logged α β) (f : β → Logged α γ) :
    (x >>= f).result = x.result >>= fun value => (f value).result := by
  change (Logged.bind x f).result = _
  rw [Logged.bind]
  cases x.result <;> rfl

@[simp] theorem result_lift (x : Checked β) : (liftM x : Logged α β).result = x := rfl

@[simp] theorem events_lift (x : Checked β) : (liftM x : Logged α β).events = [] := rfl

/-- The events of a sequence are those of its parts, in order. -/
theorem events_bind_of_ok {x : Logged α β} {value : β} (h : x.result = .ok value)
    (f : β → Logged α γ) : (x >>= f).events = x.events ++ (f value).events := by
  change (Logged.bind x f).events = _
  rw [Logged.bind, h]

/-- Nothing happens after a fault. -/
theorem events_bind_of_error {x : Logged α β} {e : Fault} (h : x.result = .error e)
    (f : β → Logged α γ) : (x >>= f).events = x.events := by
  change (Logged.bind x f).events = _
  rw [Logged.bind, h]

theorem foldFrom_eq (act : β → γ → Logged α β) (past : List (LogEntry α)) (state : β)
    (items : List γ) :
    foldFrom act past state items
      = ⟨past.reverse ++ (items.foldlM act state).events, (items.foldlM act state).result⟩ := by
  induction items generalizing past state with
  | nil => simp [foldFrom]
  | cons item rest ih =>
    rw [foldFrom, List.foldlM_cons]
    cases h : (act state item).result with
    | ok next =>
      simp only [ih, result_bind, events_bind_of_ok h, h, List.reverse_append,
        List.reverse_reverse, List.append_assoc]
      rfl
    | error e =>
      simp only [result_bind, events_bind_of_error h, h, List.reverse_append,
        List.reverse_reverse]
      rfl

/-- Acting on items in turn is a sequence of the actions. -/
theorem fold_eq_foldlM (act : β → γ → Logged α β) (state : β) (items : List γ) :
    fold act state items = items.foldlM act state := by
  rw [fold, foldFrom_eq, List.reverse_nil, List.nil_append]

end Logged

end Datacenter
