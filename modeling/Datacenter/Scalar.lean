/-!
# The numbers of the model

Rates, utilizations, powers and times are values of a scalar type. Simulations run with machine
floats; the same definitions can be read over an exact ordered field, where `sqrt` is the square
root and `largest` an upper bound of the powers in use.

A scalar that is not below or equal to itself is not a number; `larger` and `comesBefore` say where
such values go.
-/

namespace Datacenter

/-- Numbers with the operations and comparisons that the model uses. -/
class Scalar (α : Type) extends
    Zero α, One α, Neg α, Add α, Sub α, Mul α, Div α, LT α, LE α, OfScientific α where
  decLt : DecidableLT α
  decLe : DecidableLE α
  ofNat : Nat → α
  sqrt : α → α
  /-- Upper bound of the finite numbers. -/
  largest : α
  /-- The least natural number that is not smaller, zero if there is none. -/
  natCeil : α → Nat

attribute [reducible, instance] Scalar.decLt Scalar.decLe

instance : Scalar Float where
  decLt := inferInstance
  decLe := inferInstance
  ofNat := Float.ofNat
  sqrt := Float.sqrt
  largest := Float.ofBits 0x7fefffffffffffff
  natCeil x := x.ceil.toUInt64.toNat

namespace Scalar

variable {α : Type} [Scalar α]

/-- Tolerance of comparisons between computed amounts. -/
def epsilon : α := 1e-9

/-- The larger of two numbers, the second of two equal ones; a value that is no number gives way. -/
def larger (a b : α) : α :=
  if b < a then a else if b ≤ b then b else a

/-- Moves a value below 0 to 0 and a value above 1 to 1. -/
def clampUnit (x : α) : α :=
  if x < 0 then 0 else if 1 < x then 1 else x

/-- Order of points in time: as numbers, and what is no number comes last. -/
def comesBefore (a b : α) : Bool :=
  a < b || (a ≤ a && !(b ≤ b))

/-- Sum from left to right. It starts at the negative zero, which changes no term. -/
def sum (xs : List α) : α :=
  xs.foldl (· + ·) (-0)

end Scalar

end Datacenter
