import Datacenter.Decimal.Shortest

/-!
# Texts of numbers

Messages show a number with its shortest digits and without an exponent, or with a fixed number of
decimals. Tables show it with its shortest digits, a decimal point and, outside of a range, an
exponent.
-/

namespace Datacenter.Decimal

/-- Writes decimal digits with the point moved left by `places`, a positive number. -/
def withPoint (digits : String) (places : Nat) : String :=
  let padded := "".pushn '0' (places + 1 - digits.length) ++ digits
  let whole := padded.length - places
  String.ofList (padded.toList.take whole) ++ "." ++ String.ofList (padded.toList.drop whole)

/-- Positional text without a needless point. -/
def Digits.positional (d : Digits) : String :=
  if 0 ≤ d.exponent then (toString d.digits).pushn '0' d.exponent.toNat
  else withPoint (toString d.digits) (-d.exponent).toNat

/-- One digit before the point, and the power of ten that belongs to it. -/
def Digits.scientific (d : Digits) : String :=
  let digits := toString d.digits
  let places := digits.length - 1
  let mantissa := if places = 0 then digits else withPoint digits places
  mantissa ++ "e" ++ toString (d.exponent + places)

/-- The sign, and a text for each kind of value. -/
def render (x : Float) (finite : Binary → String) : String :=
  let signed (negative : Bool) (text : String) : String := if negative then "-" ++ text else text
  match Value.ofFloat x with
  | .notANumber => "NaN"
  | .infinite negative => signed negative "inf"
  | .finite negative size => signed negative (finite size)

/-- Shortest digits without an exponent, as messages show a number. A tie goes up. -/
def plain (x : Float) : String :=
  render x fun size => (size.shortest .up).positional

/-- A fixed positive number of decimals, rounded from the exact value. A tie goes to even. -/
def fixed (places : Nat) (x : Float) : String :=
  render x fun size =>
    let (numerator, denominator) := size.inUnitsOf (-places)
    withPoint (toString (roundedQuotient .toEven numerator denominator)) places

/-- Shortest digits as tables show a number: positional with a point from `1e-5` up to below
`1e16`, else with an exponent. A tie goes to even. -/
def tabular (x : Float) : String :=
  render x fun size =>
    let d := size.shortest .toEven
    let leading : Int := d.exponent + (toString d.digits).length - 1
    if d.digits = 0 then "0.0"
    else if leading < -5 ∨ 16 ≤ leading then d.scientific
    else if 0 ≤ d.exponent then d.positional ++ ".0"
    else d.positional

end Datacenter.Decimal
