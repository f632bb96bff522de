import Datacenter.Refusal

/-!
# Results of operations

A fault ends a run: an id that a caller promised to know, an amount beyond 64 bits, a snapshot that
cannot be rebuilt, an order that contradicts itself. `Checked` results are values or faults. An
`Outcome` may also be a refusal, which is an answer and leaves everything as it was.
-/

namespace Datacenter

abbrev VmId := Nat

abbrev HostId := Nat

/-- Why a saved placement is not rebuilt. -/
inductive RestoreFailure where
  | noSnapshot
  | unknownVm (vm : VmId)
  | refused (vm : VmId) (host : HostId) (reason : Refusal)
  deriving DecidableEq, Repr

def RestoreFailure.message : RestoreFailure → String
  | .noSnapshot => "no allocation snapshot was saved"
  | .unknownVm vm => "vm #" ++ toString vm ++ " does not exist"
  | .refused vm host reason =>
    "vm #" ++ toString vm ++ " can't be restored on host #" ++ toString host ++ ": "
      ++ reason.message

/-- What ends a run. -/
inductive Fault where
  | unknownId
  | overflow
  | restoreFailed (failure : RestoreFailure)
  | noOrder
  deriving DecidableEq, Repr

def Fault.message : Fault → String
  | .unknownId => "IndexMap: key not found"
  | .overflow => "attempt to add with overflow"
  | .restoreFailed failure => "allocation can't be restored: " ++ failure.message
  | .noOrder => "user-provided comparison function does not correctly implement a total order"

/-- A value or a fault. -/
abbrev Checked := Except Fault

/-- A value, a refusal for a reason of type `ε`, or a fault. -/
inductive Outcome (ε β : Type) where
  | done (value : β)
  | refused (reason : ε)
  | fault (fault : Fault)
  deriving DecidableEq

namespace Outcome

variable {ε β γ : Type}

def bind (x : Outcome ε β) (f : β → Outcome ε γ) : Outcome ε γ :=
  match x with
  | done value => f value
  | refused reason => refused reason
  | fault e => fault e

instance : Monad (Outcome ε) where
  pure := done
  bind := Outcome.bind

/-- A checked value, refused for no reason. -/
def ofChecked : Checked β → Outcome ε β
  | .ok value => done value
  | .error e => fault e

instance : MonadLift Checked (Outcome ε) := ⟨ofChecked⟩

/-- The value, or a refusal if there is none. -/
def ofOption (reason : ε) : Option β → Outcome ε β
  | some value => done value
  | none => refused reason

/-- The value or the refusal, unless there is a fault. -/
def settled : Outcome ε β → Checked (Except ε β)
  | done value => .ok (.ok value)
  | refused reason => .ok (.error reason)
  | fault e => .error e

/-- Names the same refusals in other words. -/
def mapRefusal {δ : Type} (f : ε → δ) : Outcome ε β → Outcome δ β
  | done value => done value
  | refused reason => refused (f reason)
  | fault e => fault e

/-! ### Sequencing -/

@[simp] theorem pure_eq (value : β) : (pure value : Outcome ε β) = done value := rfl

@[simp] theorem done_bind (value : β) (f : β → Outcome ε γ) : (done value >>= f) = f value := rfl

@[simp] theorem refused_bind (reason : ε) (f : β → Outcome ε γ) :
    (refused reason >>= f) = refused reason := rfl

@[simp] theorem fault_bind (e : Fault) (f : β → Outcome ε γ) : (fault e >>= f) = fault e := rfl

/-- A sequence is done when each of its parts is. -/
theorem bind_eq_done_iff (x : Outcome ε β) (f : β → Outcome ε γ) (c : γ) :
    (x >>= f) = done c ↔ ∃ b, x = done b ∧ f b = done c := by
  cases x <;> simp

end Outcome

end Datacenter
