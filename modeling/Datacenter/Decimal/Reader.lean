/-!
# Numbers from text

Readers of decimal, integer and truth-value texts. The whole text has to be a number: there are no
blanks and no digit separators.
-/

namespace Datacenter.Decimal

/-- Value of the digits in the base, if the list is not empty and has nothing else. -/
def readDigits? (base : Nat) (cs : List Char) : Option Nat :=
  if cs.isEmpty then none
  else cs.foldlM (fun n c => (digitValue? c).map (base * n + ·)) 0
where
  digitValue? (c : Char) : Option Nat :=
    let value? :=
      if '0' ≤ c ∧ c ≤ '9' then some (c.toNat - '0'.toNat)
      else if 'a' ≤ c ∧ c ≤ 'z' then some (c.toNat - 'a'.toNat + 10)
      else if 'A' ≤ c ∧ c ≤ 'Z' then some (c.toNat - 'A'.toNat + 10)
      else none
    value?.filter (· < base)

/-- Splits off a sign: whether there is a minus, and the rest. -/
def splitSign : List Char → Bool × List Char
  | '-' :: rest => (true, rest)
  | '+' :: rest => (false, rest)
  | cs => (false, cs)

/-- The float nearest to `mantissa * 10 ^ exponent`. Numbers beyond the range of floats are settled
by their size alone. -/
def nearestFloat (mantissa : Nat) (exponent : Int) : Float :=
  let leading : Int := exponent + mantissa.log2 / 4
  if mantissa = 0 ∨ exponent + mantissa.log2 < -400 then 0
  else if 400 < leading then 1 / 0
  else Float.ofScientific mantissa (exponent < 0) exponent.natAbs

/-- The exponent after a mantissa: nothing, or a mark followed by an integer. -/
def readExponent? : List Char → Option Int
  | [] => some 0
  | c :: rest =>
    if c = 'e' ∨ c = 'E' then
      let (negative, digits) := splitSign rest
      (readDigits? 10 digits).map fun n => if negative then -(n : Int) else n
    else none

/-- A float without its sign: an infinity, a value that is no number, or digits with at most one
point and possibly an exponent. -/
def readUnsignedFloat? (cs : List Char) : Option Float :=
  let lower := cs.map Char.toLower
  if lower = "inf".toList ∨ lower = "infinity".toList then some (1 / 0)
  else if lower = "nan".toList then some (0 / 0)
  else
    let whole := cs.takeWhile Char.isDigit
    let afterWhole := cs.dropWhile Char.isDigit
    let (fraction, rest) :=
      match afterWhole with
      | '.' :: tail => (tail.takeWhile Char.isDigit, tail.dropWhile Char.isDigit)
      | tail => ([], tail)
    do
      let mantissa ← readDigits? 10 (whole ++ fraction)
      let exponent ← readExponent? rest
      return nearestFloat mantissa (exponent - fraction.length)

/-- A decimal number, an infinity or a value that is no number, with an optional sign. -/
def readFloat? (text : String) : Option Float :=
  let (negative, rest) := splitSign text.toList
  (readUnsignedFloat? rest).map fun x => if negative then -x else x

/-- A natural number below `2 ^ bits`, with an optional plus. -/
def readNat? (bits : Nat) (text : String) : Option Nat :=
  let digits := match text.toList with
    | '+' :: rest => rest
    | cs => cs
  (readDigits? 10 digits).filter (· < Nat.pow 2 bits)

/-- A signed integer of the given number of bits, with an optional sign. -/
def readInt? (bits : Nat) (text : String) : Option Int :=
  let (negative, digits) := splitSign text.toList
  (readDigits? 10 digits).bind fun n =>
    let value : Int := if negative then -(n : Int) else n
    if -Nat.pow 2 (bits - 1) ≤ value ∧ value < Nat.pow 2 (bits - 1) then some value else none

/-- The words `true` and `false`. -/
def readBool? : String → Option Bool
  | "true" => some true
  | "false" => some false
  | _ => none

end Datacenter.Decimal
