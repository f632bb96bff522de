import Datacenter.Decimal.Binary

/-!
# The fewest digits that read back

A float stands for all numbers that round to it: those between the midpoints to its neighbours, the
midpoints included if its mantissa is even. The selection goes from coarse to fine decimal grids and
takes the first grid with a point in that range, of two points the nearer one.
-/

namespace Datacenter.Decimal

/-- Whether the decimal rounds to the float. -/
def Binary.readsBack (x : Binary) (d : Digits) : Bool :=
  let low := if x.narrowBelow then 4 * x.mantissa - 1 else 4 * x.mantissa - 2
  let high := 4 * x.mantissa + 2
  let closed := x.mantissa % 2 == 0
  let atLow := compareScaled d.digits d.exponent low (x.exponent - 2)
  let atHigh := compareScaled d.digits d.exponent high (x.exponent - 2)
  (atLow == .gt || (closed && atLow == .eq)) && (atHigh == .lt || (closed && atHigh == .eq))

/-- The least `k` such that a positive number is below `10 ^ k`, from an estimate that is never too
large and at most three too small. -/
def Binary.scale (x : Binary) : Int :=
  let estimate : Int := (x.mantissa.log2 + x.exponent) * 30103 / 100000
  let above := (List.range 4).find? fun (i : Nat) =>
    compareScaled 1 (estimate + i) x.mantissa x.exponent == .gt
  estimate + above.getD 0

/-- The point of the grid that reads back, the nearer one if both neighbours do. -/
def Binary.onGrid (x : Binary) (tie : Tie) (grid : Int) : Option Digits :=
  let (numerator, denominator) := x.inUnitsOf grid
  let lower := numerator / denominator
  match x.readsBack ⟨lower, grid⟩, x.readsBack ⟨lower + 1, grid⟩ with
  | true, true => some ⟨roundedQuotient tie numerator denominator, grid⟩
  | true, false => some ⟨lower, grid⟩
  | false, true => some ⟨lower + 1, grid⟩
  | false, false => none

/-- The number itself, with as many digits as it takes. -/
def Binary.exactDigits (x : Binary) : Digits :=
  if 0 ≤ x.exponent then ⟨x.mantissa * Nat.pow 2 x.exponent.toNat, 0⟩
  else ⟨x.mantissa * Nat.pow 5 (-x.exponent).toNat, x.exponent⟩

/-- Moves up to `count` trailing zeros from the digits into the exponent. -/
def Digits.strip (d : Digits) : Nat → Digits
  | 0 => d
  | count + 1 =>
    if d.digits ≠ 0 ∧ d.digits % 10 = 0 then
      Digits.strip ⟨d.digits / 10, d.exponent + 1⟩ count
    else d

/-- The fewest digits that read back as the float. Seventeen are always enough. -/
def Binary.shortest (x : Binary) (tie : Tie) : Digits :=
  if x.mantissa = 0 then ⟨0, 0⟩
  else
    let scale := x.scale
    let found := (List.range 17).findSome? fun (n : Nat) => x.onGrid tie (scale - (n + 1))
    let digits := found.getD x.exactDigits
    digits.strip (digits.digits.log2 + 1)

end Datacenter.Decimal
