/-!
# Floats as exact numbers

The bits of a float are a sign, a mantissa and a binary exponent. Digits are a natural number and a
decimal exponent. Both are compared exactly, over the naturals.
-/

namespace Datacenter.Decimal

/-- The number `mantissa * 2 ^ exponent`. -/
structure Binary where
  mantissa : Nat
  exponent : Int
  /-- The gap to the next smaller float is half the gap to the next larger one. -/
  narrowBelow : Bool

/-- What a float stands for. -/
inductive Value where
  | notANumber
  | infinite (negative : Bool)
  | finite (negative : Bool) (size : Binary)

/-- Splits 64 bits into 1 bit of sign, 11 bits of exponent and 52 bits of mantissa. -/
def Value.ofBits (bits : UInt64) : Value :=
  let negative : Bool := Nat.pow 2 63 ≤ bits.toNat
  let exponent : Nat := bits.toNat / Nat.pow 2 52 % Nat.pow 2 11
  let fraction : Nat := bits.toNat % Nat.pow 2 52
  if exponent = 2047 then
    if fraction = 0 then .infinite negative else .notANumber
  else if exponent = 0 then .finite negative ⟨fraction, -1074, false⟩
  else
    .finite negative
      ⟨Nat.pow 2 52 + fraction, (exponent : Int) - 1075, fraction = 0 && 1 < exponent⟩

def Value.ofFloat (x : Float) : Value := .ofBits x.toBits

/-- The number `digits * 10 ^ exponent`. -/
structure Digits where
  digits : Nat
  exponent : Int
  deriving DecidableEq

/-- Compares `a * 10 ^ i` with `b * 2 ^ j`. -/
def compareScaled (a : Nat) (i : Int) (b : Nat) (j : Int) : Ordering :=
  compare (a * Nat.pow 10 i.toNat * Nat.pow 2 (-j).toNat)
    (b * Nat.pow 2 j.toNat * Nat.pow 10 (-i).toNat)

/-- Where a number half-way between two candidates goes. -/
inductive Tie where
  | toEven
  | up

/-- Of two neighbours, the one that is taken on a tie. -/
def Tie.choose (tie : Tie) (lower : Nat) : Nat :=
  match tie with
  | .up => lower + 1
  | .toEven => if lower % 2 = 0 then lower else lower + 1

/-- A quotient rounded to the nearest natural number. -/
def roundedQuotient (tie : Tie) (numerator denominator : Nat) : Nat :=
  let lower := numerator / denominator
  match compare (2 * (numerator % denominator)) denominator with
  | .lt => lower
  | .gt => lower + 1
  | .eq => tie.choose lower

/-- The size in units of `10 ^ grid`, as a numerator and a denominator. -/
def Binary.inUnitsOf (x : Binary) (grid : Int) : Nat × Nat :=
  (x.mantissa * Nat.pow 2 x.exponent.toNat * Nat.pow 10 (-grid).toNat,
    Nat.pow 2 (-x.exponent).toNat * Nat.pow 10 grid.toNat)

end Datacenter.Decimal
