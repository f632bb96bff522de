import Datacenter.Outcome
import Datacenter.Scalar

/-!
# Amounts of resources

Compute rates are scalars; memory, bandwidth and storage are 64-bit words. Adding faults when a word
would overflow, subtracting stops at zero.
-/

namespace Datacenter

/-! ### Words -/

/-- Sum of two words, a fault if it does not fit into a word. -/
def addWords (a b : UInt64) : Checked UInt64 :=
  if a.toNat + b.toNat < UInt64.size then .ok (a + b) else .error .overflow

/-- Difference of two words, zero if the second is larger. -/
def subWords (a b : UInt64) : UInt64 :=
  if b ≤ a then a - b else 0

theorem addWords_eq_ok_iff (a b c : UInt64) :
    addWords a b = .ok c ↔ c.toNat = a.toNat + b.toNat := by
  have hc := c.toNat_lt_size
  rw [addWords]
  split
  · rename_i h
    rw [Except.ok.injEq, ← UInt64.toNat_inj, UInt64.toNat_add, Nat.mod_eq_of_lt h]
    exact eq_comm
  · simp only [reduceCtorEq, false_iff]
    omega

theorem toNat_subWords (a b : UInt64) : (subWords a b).toNat = a.toNat - b.toNat := by
  rw [subWords]
  split
  · rename_i h
    exact UInt64.toNat_sub_of_le a b h
  · rename_i h
    rw [UInt64.le_iff_toNat_le] at h
    simp only [UInt64.toNat_zero]
    omega

/-! ### Resources -/

/-- Compute rate in MIPS, memory in MB, bandwidth in Mbit/s and storage in MB. -/
structure Resources (α : Type) where
  mips : α
  ram : UInt64
  bandwidth : UInt64
  storage : UInt64
  deriving DecidableEq, Repr

namespace Resources

variable {α : Type} [Scalar α]

def zero : Resources α := ⟨0, 0, 0, 0⟩

def add (a b : Resources α) : Checked (Resources α) := do
  let ram ← addWords a.ram b.ram
  let bandwidth ← addWords a.bandwidth b.bandwidth
  let storage ← addWords a.storage b.storage
  return ⟨a.mips + b.mips, ram, bandwidth, storage⟩

/-- Takes resources away, down to nothing in each dimension. -/
def sub (a b : Resources α) : Resources α where
  mips := Scalar.larger (a.mips - b.mips) 0
  ram := subWords a.ram b.ram
  bandwidth := subWords a.bandwidth b.bandwidth
  storage := subWords a.storage b.storage

/-- The first dimension in which the demand is larger than what is free. Compute rates are compared
with a tolerance. -/
def shortage (free demand : Resources α) : Option Dimension :=
  if free.mips + Scalar.epsilon < demand.mips then some .cpu
  else if free.ram < demand.ram then some .memory
  else if free.bandwidth < demand.bandwidth then some .bandwidth
  else if free.storage < demand.storage then some .storage
  else none

/-- Equality of amounts; compute rates are equal as numbers. -/
def agrees (a b : Resources α) : Bool :=
  (a.mips ≤ b.mips && b.mips ≤ a.mips)
    && a.ram == b.ram && a.bandwidth == b.bandwidth && a.storage == b.storage

end Resources

/-- Resource whose utilization is watched. -/
inductive ResourceKind where
  | cpu
  | ram
  deriving DecidableEq, Repr

def ResourceKind.name : ResourceKind → String
  | .cpu => "CPU"
  | .ram => "RAM"

end Datacenter
