import Mathlib
import Datacenter.Proofs.FloatOrder

/-!
# Floats that are numbers

A float is a number if it has a rank, infinities included. Rounding gives a number whatever it is
given, and a number is packed into bits that are read as a number. So a finite number can be added
to any number, and gives a number, even if the sum is too large to be finite.

Main statements: `float_le_self_iff`, `float_not_lt_iff` and `float_le_self_add`.
-/

namespace Datacenter

open Float.Model UnpackedFloat

/-! ### Unpacked floats -/

theorem floatRank_eq_none_iff (x : UnpackedFloat) : floatRank x = none ↔ x.isNaN = true := by
  cases x with
  | notANumber => exact ⟨fun _ => rfl, fun _ => rfl⟩
  | zero sign => exact ⟨nofun, nofun⟩
  | infinity sign =>
    cases sign with
    | negative => exact ⟨nofun, nofun⟩
    | positive => exact ⟨nofun, nofun⟩
  | finite sign mantissa exponent =>
    cases sign with
    | negative => exact ⟨nofun, nofun⟩
    | positive => exact ⟨nofun, nofun⟩

theorem isNaN_roundWithAccuracy (spec : Format) (sign : Sign) (mantissa : Nat) (exponent : Int)
    (accuracy : Accuracy) :
    (roundWithAccuracy spec sign mantissa exponent accuracy).isNaN = false := by
  fun_cases roundWithAccuracy spec sign mantissa exponent accuracy with
  | case1 => rfl
  | case2 => rfl

theorem isNaN_normalize (spec : Format) (mantissa exponent : Int) (zeroSign : Sign) :
    (UnpackedFloat.normalize spec mantissa exponent zeroSign).isNaN = false := by
  fun_cases UnpackedFloat.normalize spec mantissa exponent zeroSign with
  | case1 => exact isNaN_roundWithAccuracy _ _ _ _ _
  | case2 => rfl
  | case3 => exact isNaN_roundWithAccuracy _ _ _ _ _

theorem isNaN_of_isFinite {x : UnpackedFloat} (hx : x.isFinite = true) : x.isNaN = false := by
  cases x with
  | notANumber => cases hx
  | infinity sign => cases hx
  | zero sign => rfl
  | finite sign mantissa exponent => rfl

theorem isNaN_add (spec : Format) {x y : UnpackedFloat} (hx : x.isNaN = false)
    (hy : y.isFinite = true) : (UnpackedFloat.add spec x y).isNaN = false := by
  fun_cases UnpackedFloat.add spec x y with
  | case1 => cases hx
  | case2 | case3 | case4 | case6 => cases hy
  | case5 | case7 | case8 => rfl
  | case9 => exact isNaN_of_isFinite hy
  | case10 => exact hx
  | case11 => exact isNaN_normalize _ _ _ _

theorem isNaN_unpack_packComponents (spec : Format) (sign : Sign)
    (exponent : BitVec spec.exponentBits) (mantissa : BitVec spec.mantissaBitsWithoutImplicit)
    (h : exponent = -1#_ → mantissa = 0#_) :
    (UnpackedFloat.unpack spec (packComponents spec sign exponent mantissa)).isNaN = false := by
  fun_cases UnpackedFloat.unpack spec (packComponents spec sign exponent mantissa) with
  | case1 => rfl
  | case2 _ _ he hm =>
    have hexponent : exponent = -1#_ := unpackExponent_packComponents.symm.trans he
    exact absurd (unpackMantissa_packComponents.trans (h hexponent)) hm
  | case3 => rfl
  | case4 => rfl
  | case5 => rfl

/-- A number is packed into bits that are read as a number. -/
theorem isNaN_unpack_pack (spec : Format) {x : UnpackedFloat} (hx : x.isNaN = false) :
    (UnpackedFloat.unpack spec (UnpackedFloat.pack spec x)).isNaN = false := by
  fun_cases UnpackedFloat.pack spec x with
  | case1 => cases hx
  | case2 | case3 | case4 => exact isNaN_unpack_packComponents _ _ _ _ fun _ => rfl
  | case5 sign mantissa exponent hm bits biased hroom =>
    refine isNaN_unpack_packComponents _ _ _ _ fun h => absurd h ?_
    -- The exponent has room, so it is not the one of infinities.
    rw [BitVec.neg_one_eq_allOnes, ← BitVec.toNat_inj, BitVec.toNat_ofNat, BitVec.toNat_allOnes,
      Nat.mod_eq_of_lt (by omega)]
    omega
  | case6 =>
    refine isNaN_unpack_packComponents _ _ _ _ fun h => absurd h ?_
    have hbits : 1 < 2 ^ spec.exponentBits := Nat.one_lt_two_pow spec.he.ne'
    rw [BitVec.neg_one_eq_allOnes, ← BitVec.toNat_inj, BitVec.toNat_allOnes]
    change 0 ≠ _
    omega

/-! ### Floats -/

theorem float_le_self_iff (a : Float) : a ≤ a ↔ a.isNaN = false := by
  have hrank : a ≤ a ↔ ∃ x, floatRank a.toModel.unpack = some x := by
    rw [float_le_iff]
    constructor
    · rintro ⟨x, -, hx, -⟩
      exact ⟨x, hx⟩
    · rintro ⟨x, hx⟩
      exact ⟨x, x, hx, hx, le_rfl⟩
  have hnan : floatRank a.toModel.unpack = none ↔ a.isNaN = true := floatRank_eq_none_iff _
  rw [hrank, ← Option.ne_none_iff_exists', ne_eq, hnan, Bool.not_eq_true]

theorem float_le_self_of_isFinite {a : Float} (h : a.isFinite = true) : a ≤ a :=
  (float_le_self_iff a).mpr (isNaN_of_isFinite h)

/-- Adding a finite number to a number gives a number, which may be infinite. -/
theorem float_le_self_add {a b : Float} (ha : a ≤ a) (hb : b.isFinite = true) : a + b ≤ a + b := by
  rw [float_le_self_iff] at ha ⊢
  exact isNaN_unpack_pack _ (isNaN_add _ ha hb)

/-- Numbers are comparable. -/
theorem float_not_lt_iff {a b : Float} (ha : a ≤ a) (hb : b ≤ b) : ¬a < b ↔ b ≤ a := by
  obtain ⟨x, -, hx, -⟩ := (float_le_iff a a).mp ha
  obtain ⟨y, -, hy, -⟩ := (float_le_iff b b).mp hb
  simp [float_lt_iff, float_le_iff, hx, hy]

end Datacenter
