import Datacenter.Proofs.FloatRounding

/-!
# Sums and quotients of floats

A sum of floats that are not negative is not below the first of them, even where rounding loses all
of the second one. Products and quotients of positive floats are positive if their exponents are far
enough from the least one, as those of natural numbers are. A value that is no number makes every
sum one that is no number.

Main statements: `float_le_add`, `float_isNaN_add` and `float_transfer_nonneg`.
-/

namespace Datacenter

open Float.Model UnpackedFloat

/-! ### Sums -/

/-- Zeros of either sign, and positive numbers that fit. -/
inductive Nonneg : UnpackedFloat → Prop where
  | zero (sign : Sign) : Nonneg (.zero sign)
  | finite {m : Nat} {e : Int} (hm : 0 < m) (h : Fits m e) : Nonneg (.finite .positive m e hm)
  | infinity : Nonneg (.infinity .positive)

theorem floatRank_zero : floatRank (0 : Float).toModel.unpack = some (toLex (0, toLex (0, 0))) := by
  decide +kernel

theorem Nonneg.zero_le_rank {x : UnpackedFloat} (h : Nonneg x) :
    ∃ r, floatRank x = some r ∧ toLex (0, toLex (0, 0)) ≤ r := by
  cases h with
  | zero sign => exact ⟨_, rfl, le_rfl⟩
  | finite hm h => exact ⟨_, rfl, Prod.Lex.toLex_le_toLex.mpr (.inl Int.zero_lt_one)⟩
  | infinity => exact ⟨_, rfl, by decide⟩

theorem float_nonneg_iff (a : Float) : 0 ≤ a ↔ Nonneg a.toModel.unpack := by
  rw [float_le_iff, floatRank_zero]
  constructor
  · rintro ⟨z, r, hz, hr, hle⟩
    cases hz
    cases ha : a.toModel.unpack with
    | notANumber =>
      rw [ha] at hr
      cases hr
    | zero sign => exact .zero sign
    | infinity sign =>
      cases sign with
      | negative =>
        rw [ha] at hr
        cases hr
        exact absurd hle (by decide)
      | positive => exact .infinity
    | finite sign m e hm =>
      cases sign with
      | negative =>
        rw [ha] at hr
        cases hr
        rw [Prod.Lex.toLex_le_toLex] at hle
        omega
      | positive => exact .finite hm (fits_of_unpack ha)
  · intro h
    obtain ⟨r, hr, hle⟩ := h.zero_le_rank
    exact ⟨_, r, rfl, hr, hle⟩

/-- What bits make of a positive number that fits is not smaller. -/
theorem Fits.le_rank {m : Nat} {e : Int} (h : Fits m e) (hm : 0 < m) :
    ∃ r, floatRank (UnpackedFloat.unpack .binary64
        (UnpackedFloat.pack .binary64 (.finite .positive m e hm))) = some r
      ∧ toLex (1, toLex (e, (m : ℤ))) ≤ r := by
  rw [unpack_pack_of_fits h]
  split_ifs with hroom
  · exact ⟨_, rfl, le_rfl⟩
  · exact ⟨_, rfl, Prod.Lex.toLex_le_toLex.mpr (.inl (by omega))⟩

theorem Fits.add {m₁ m₂ : Nat} {e₁ e₂ : Int} (h₁ : Fits m₁ e₁) (h₂ : Fits m₂ e₂) (hm₁ : 0 < m₁)
    (hm₂ : 0 < m₂) : ∃ m e hm, UnpackedFloat.add .binary64 (.finite .positive m₁ e₁ hm₁)
        (.finite .positive m₂ e₂ hm₂) = .finite .positive m e hm
      ∧ Fits m e ∧ (e₁ < e ∨ e₁ = e ∧ m₁ ≤ m) := by
  have hleast₁ := h₁.least
  have hleast₂ := h₂.least
  obtain ⟨k₁, hk₁⟩ : ∃ k, k = (e₁ - min e₁ e₂).toNat := ⟨_, rfl⟩
  obtain ⟨k₂, hk₂⟩ : ∃ k, k = (e₂ - min e₁ e₂).toNat := ⟨_, rfl⟩
  have hfirst : 0 < m₁ * 2 ^ k₁ := Nat.mul_pos hm₁ (by positivity)
  obtain ⟨m, e, hm, hround, hfits, -, -, hle⟩ :=
    round_eq (m := m₁ * 2 ^ k₁ + m₂ * 2 ^ k₂) (by omega) (by omega : -1074 ≤ min e₁ e₂) .positive
  refine ⟨m, e, hm, ?_, hfits, hle m₁ e₁ h₁ (by omega) ?_⟩
  · have hpos : compare (((m₁ * 2 ^ k₁ + m₂ * 2 ^ k₂ : ℕ) : ℤ)) 0 = .gt := by
      rw [compare_gt_iff_gt]
      omega
    simp only [UnpackedFloat.add, decreaseExponent, Nat.shiftLeft_eq, Sign.apply, ← hk₁, ← hk₂,
      ← Nat.cast_add, UnpackedFloat.normalize, hpos, Int.toNat_natCast, hround]
  · rw [← hk₁]
    omega

theorem rank_infinity : floatRank (UnpackedFloat.unpack .binary64
    (UnpackedFloat.pack .binary64 (.infinity .positive))) = some (toLex (2, toLex (0, 0))) := by
  rw [unpack_pack_infinity]
  rfl

theorem Nonneg.rank_le_add {x y : UnpackedFloat} (hx : Nonneg x) (hy : Nonneg y) :
    ∃ r r', floatRank x = some r ∧ floatRank (UnpackedFloat.unpack .binary64
        (UnpackedFloat.pack .binary64 (UnpackedFloat.add .binary64 x y))) = some r' ∧ r ≤ r' := by
  -- An infinite summand gives an infinite sum, and a zero gives the other summand.
  cases hx with
  | zero sign =>
    cases hy with
    | zero sign' =>
      rw [UnpackedFloat.add]
      split_ifs
      · rw [unpack_pack_zero]
        exact ⟨_, _, rfl, rfl, le_rfl⟩
      · rw [unpack_pack_zero]
        exact ⟨_, _, rfl, rfl, le_rfl⟩
    | finite hm h =>
      obtain ⟨r, hr, hle⟩ := h.le_rank hm
      refine ⟨_, r, rfl, hr, le_trans ?_ hle⟩
      exact Prod.Lex.toLex_le_toLex.mpr (.inl Int.zero_lt_one)
    | infinity => exact ⟨_, _, rfl, rank_infinity, by decide⟩
  | finite hm h =>
    cases hy with
    | zero sign =>
      obtain ⟨r, hr, hle⟩ := h.le_rank hm
      exact ⟨_, r, rfl, hr, hle⟩
    | finite hm' h' =>
      obtain ⟨m, e, hpos, heq, hfits, hle⟩ := h.add h' hm hm'
      obtain ⟨r, hr, hrank⟩ := hfits.le_rank hpos
      rw [heq]
      refine ⟨_, r, rfl, hr, le_trans ?_ hrank⟩
      rw [Prod.Lex.toLex_le_toLex, Prod.Lex.toLex_le_toLex]
      omega
    | infinity =>
      exact ⟨_, _, rfl, rank_infinity, Prod.Lex.toLex_le_toLex.mpr (.inl (by omega))⟩
  | infinity =>
    cases hy with
    | zero sign => exact ⟨_, _, rfl, rank_infinity, le_rfl⟩
    | finite hm h => exact ⟨_, _, rfl, rank_infinity, le_rfl⟩
    | infinity => exact ⟨_, _, rfl, rank_infinity, le_rfl⟩

/-- A sum of numbers that are not negative is not below the first one. -/
theorem float_le_add {a b : Float} (ha : 0 ≤ a) (hb : 0 ≤ b) : a ≤ a + b := by
  rw [float_nonneg_iff] at ha hb
  exact (float_le_iff _ _).mpr (ha.rank_le_add hb)

theorem float_le_trans {a b c : Float} (hab : a ≤ b) (hbc : b ≤ c) : a ≤ c := by
  obtain ⟨x, y, hx, hy, hle⟩ := (float_le_iff a b).mp hab
  obtain ⟨y', z, hy', hz, hle'⟩ := (float_le_iff b c).mp hbc
  rw [hy, Option.some.injEq] at hy'
  subst hy'
  exact (float_le_iff a c).mpr ⟨x, z, hx, hz, hle.trans hle'⟩

theorem float_isNaN_add {b : Float} (h : b.isNaN = true) (a : Float) : (a + b).isNaN = true := by
  have hb : b.toModel.unpack = .notANumber := by
    have hnan : b.toModel.unpack.isNaN = true := h
    cases hunpack : b.toModel.unpack with
    | notANumber => rfl
    | zero sign | infinity sign | finite sign m e hm =>
      rw [hunpack] at hnan
      cases hnan
  have hsum : UnpackedFloat.add .binary64 a.toModel.unpack b.toModel.unpack = .notANumber := by
    rw [hb]
    cases a.toModel.unpack <;> rfl
  show (UnpackedFloat.unpack .binary64 (UnpackedFloat.pack .binary64
    (UnpackedFloat.add .binary64 a.toModel.unpack b.toModel.unpack))).isNaN = true
  rw [hsum, unpack_pack_notANumber]
  rfl

theorem float_le_of_lt {a b : Float} (h : a < b) : a ≤ b := by
  obtain ⟨x, y, hx, hy, hlt⟩ := (float_lt_iff a b).mp h
  exact (float_le_iff a b).mpr ⟨x, y, hx, hy, hlt.le⟩

theorem float_not_lt_of_isNaN {a : Float} (h : a.isNaN = true) (b : Float) : ¬a < b := by
  have hrank : floatRank a.toModel.unpack = none := (floatRank_eq_none_iff _).mpr h
  rw [float_lt_iff, hrank]
  rintro ⟨x, y, hx, -⟩
  cases hx

/-! ### Products and quotients -/

/-- A positive number with a long mantissa and an exponent in a range. -/
def InRange (x : Float) (least greatest : Int) : Prop :=
  ∃ m e hm, x.toModel.unpack = .finite .positive m e hm ∧ 2 ^ 52 ≤ m ∧ least ≤ e ∧ e ≤ greatest

theorem InRange.nonneg {x : Float} {least greatest : Int} (h : InRange x least greatest) :
    0 ≤ x := by
  obtain ⟨m, e, hm, hx, -⟩ := h
  rw [float_nonneg_iff, hx]
  exact .finite hm (fits_of_unpack hx)

/-- A long mantissa stays long, and the exponent grows by the bits that are cut. -/
theorem inRange_roundWithAccuracy {x : Float} {m : Nat} {e least greatest : Int}
    {accuracy : Accuracy} (hx : x.toModel.unpack = UnpackedFloat.unpack .binary64
      (UnpackedFloat.pack .binary64 (roundWithAccuracy .binary64 .positive m e accuracy)))
    (he : -1074 ≤ e) (hlong : 52 ≤ m.log2) (hleast : least ≤ e + m.log2 - 52)
    (hgreatest : e + m.log2 - 51 ≤ greatest) (hroom : greatest ≤ 971) :
    InRange x least greatest := by
  have hm : 0 < m := by
    by_contra hzero
    have hzero' : m = 0 := by omega
    simp [hzero'] at hlong
  obtain ⟨m', e', hm', hround, hrounded⟩ := roundWithAccuracy_eq hm he .positive accuracy
  have hlower := hrounded.lower
  have hupper := hrounded.upper
  have hfits := hrounded.fits he (.inl hlong)
  rw [hround, unpack_pack_of_fits hfits, if_pos (by omega)] at hx
  exact ⟨m', e', hm', hx, hrounded.long hlong, by omega, by omega⟩

theorem InRange.mul {x y : Float} {a b c d : Int} (hx : InRange x a b) (hy : InRange y c d)
    (hlow : -1074 ≤ a + c) (hhigh : b + d + 54 ≤ 971) :
    InRange (x * y) (a + c + 52) (b + d + 54) := by
  obtain ⟨m₁, e₁, hm₁, hx, hlong₁, ha, hb⟩ := hx
  obtain ⟨m₂, e₂, hm₂, hy, hlong₂, hc, hd⟩ := hy
  have hfits₁ := fits_of_unpack hx
  have hfits₂ := fits_of_unpack hy
  have hlow' : 104 ≤ (m₁ * m₂).log2 := by
    rw [Nat.le_log2 (Nat.mul_pos hm₁ hm₂).ne']
    calc 2 ^ 104 = 2 ^ 52 * 2 ^ 52 := by norm_num
      _ ≤ m₁ * m₂ := Nat.mul_le_mul hlong₁ hlong₂
  have hhigh' : (m₁ * m₂).log2 < 106 := by
    rw [Nat.log2_lt (Nat.mul_pos hm₁ hm₂).ne']
    calc m₁ * m₂ < 2 ^ 53 * 2 ^ 53 := Nat.mul_lt_mul'' hfits₁.bound hfits₂.bound
      _ = 2 ^ 106 := by norm_num
  have hproduct : (x * y).toModel.unpack = UnpackedFloat.unpack .binary64 (UnpackedFloat.pack
      .binary64 (UnpackedFloat.mul .binary64 x.toModel.unpack y.toModel.unpack)) := rfl
  rw [hx, hy] at hproduct
  exact inRange_roundWithAccuracy hproduct (by omega) (by omega) (by omega) (by omega) (by omega)

theorem InRange.div {x y : Float} {a b c d : Int} (hx : InRange x a b) (hy : InRange y c d)
    (hlow : -1021 ≤ a - d) (hhigh : b - c ≤ 971) :
    InRange (x / y) (a - d - 53) (b - c - 51) := by
  obtain ⟨m₁, e₁, hm₁, hx, hlong₁, ha, hb⟩ := hx
  obtain ⟨m₂, e₂, hm₂, hy, hlong₂, hc, hd⟩ := hy
  have hfits₁ := fits_of_unpack hx
  have hfits₂ := fits_of_unpack hy
  have hlog₁ : m₁.log2 = 52 := (Nat.log2_eq_iff hm₁.ne').mpr ⟨hlong₁, hfits₁.bound⟩
  have hlog₂ : m₂.log2 = 52 := (Nat.log2_eq_iff hm₂.ne').mpr ⟨hlong₂, hfits₂.bound⟩
  -- The quotient is taken of a mantissa that is longer by 53 bits.
  have htarget : min (e₁ - e₂) (Format.binary64.targetExponent
      (totalExponent m₁ e₁ - totalExponent m₂ e₂)) = e₁ - e₂ - 53 := by
    simp only [Format.targetExponent, totalExponent, Format.mantissaBits, Format.minExponent,
      hlog₁, hlog₂]
    omega
  have hcore : divCore .binary64 m₁ e₁ m₂ e₂ = (m₁ * 2 ^ 53 / m₂, e₁ - e₂ - 53,
      accuracyOfFraction (m₁ * 2 ^ 53 % m₂) m₂) := by
    have hshift : (e₁ - e₂ - (e₁ - e₂ - 53)).toNat = 53 := by omega
    simp only [divCore, htarget, hshift, Nat.shiftLeft_eq]
  have hquotient : (x / y).toModel.unpack = UnpackedFloat.unpack .binary64 (UnpackedFloat.pack
      .binary64 (UnpackedFloat.div .binary64 x.toModel.unpack y.toModel.unpack)) := rfl
  have hpos : 2 ^ 52 ≤ m₁ * 2 ^ 53 / m₂ := by
    rw [Nat.le_div_iff_mul_le hm₂]
    have := hfits₂.bound
    omega
  have hbound : m₁ * 2 ^ 53 / m₂ < 2 ^ 54 := by
    rw [Nat.div_lt_iff_lt_mul hm₂]
    have := hfits₁.bound
    omega
  have hlow' : 52 ≤ (m₁ * 2 ^ 53 / m₂).log2 := (Nat.le_log2 (by omega)).mpr hpos
  have hhigh' : (m₁ * 2 ^ 53 / m₂).log2 < 54 := (Nat.log2_lt (by omega)).mpr hbound
  rw [hx, hy, UnpackedFloat.div, hcore] at hquotient
  exact inRange_roundWithAccuracy hquotient (by omega) (by omega) (by omega) (by omega) (by omega)

/-! ### Natural numbers -/

theorem inRange_one : InRange (Float.ofBits 0x3ff0000000000000) (-52) (-52) :=
  ⟨2 ^ 52, -52, by omega, rfl, le_rfl, le_rfl, le_rfl⟩

theorem inRange_toFloat {n : Nat} (hpos : 0 < n) (hn : n < 2 ^ 53) :
    InRange n.toUInt64.toFloat (-52) 1 := by
  have hlog : n.log2 < 53 := (Nat.log2_lt hpos.ne').mpr hn
  have hsame : n.toUInt64.toNat = n := by
    rw [Nat.toUInt64_eq, UInt64.toNat_ofNat', Nat.mod_eq_of_lt (by omega)]
  have hsign : compare (n : Int) 0 = .gt := by
    rw [compare_gt_iff_gt]
    omega
  obtain ⟨m, e, hm, hround, hfits, hleast, hgreatest, -⟩ :=
    round_eq hpos (by omega : (-1074 : Int) ≤ 0) .positive
  have hunpack : n.toUInt64.toFloat.toModel.unpack = UnpackedFloat.unpack .binary64
      (UnpackedFloat.pack .binary64 (UnpackedFloat.ofNat .binary64 n.toUInt64.toNat)) := rfl
  rw [hsame, UnpackedFloat.ofNat, UnpackedFloat.ofInt, UnpackedFloat.normalize] at hunpack
  simp only [hsign, Int.toNat_natCast, hround] at hunpack
  rw [unpack_pack_of_fits hfits, if_pos (by omega)] at hunpack
  refine ⟨m, e, hm, hunpack, ?_, by omega, by omega⟩
  rcases hfits.short with hlong | hshort
  · exact hlong
  · omega

theorem inRange_ofNat {n : Nat} (hpos : 0 < n) (hn : n < 2 ^ 64) :
    InRange (Float.ofNat n) (-52) 13 := by
  show InRange (Float.ofScientific n false 0) (-52) 13
  rw [Float.ofScientific]
  split
  · rename_i hsmall
    have hproduct : InRange (n.toUInt64.toFloat * Float.ofBits 0x3ff0000000000000) (-52) 3 :=
      (inRange_toFloat hpos hsmall.1).mul inRange_one (by omega) (by omega)
    obtain ⟨m, e, hm, heq, hlong, hleast, hgreatest⟩ := hproduct
    exact ⟨m, e, hm, heq, hlong, hleast, by omega⟩
  · rename_i hlarge
    have hlog : n.log2 < 64 := (Nat.log2_lt hpos.ne').mpr hn
    have hlog' : 53 ≤ n.log2 := (Nat.le_log2 hpos.ne').mpr (by omega)
    have hproduct : (Float.ofModel (Float.Model.ofScientific n 0)).toModel.unpack
        = UnpackedFloat.unpack .binary64 (UnpackedFloat.pack .binary64
          (roundWithAccuracy .binary64 .positive (n * 2 ^ 53) (-53) .exact)) := by
      show UnpackedFloat.unpack .binary64 (UnpackedFloat.pack .binary64
        (UnpackedFloat.ofScientific .binary64 n 0)) = _
      have hwidth : (Format.binary64.mantissaBits : Nat) = 53 := rfl
      have hrange : ¬(0 : Int) < -((2 ^ Format.binary64.exponentBits : Int) + n.log2) := by
        have hpower : (2 ^ Format.binary64.exponentBits : Int) = 2048 := by norm_num
        omega
      rw [UnpackedFloat.ofScientific, dif_neg hpos.ne', if_neg (by simp), if_neg hrange,
        if_pos le_rfl]
      simp only [UnpackedFloat.mul, hwidth, Nat.shiftLeft_eq, Int.toNat_zero, Nat.pow_zero,
        Nat.mul_one]
      rfl
    have hlong := log2_mul_two_pow hpos 53
    exact inRange_roundWithAccuracy hproduct (by omega) (by omega) (by omega) (by omega) (by omega)

theorem inRange_8000 : InRange (Float.ofNat 8000) (-40) (-40) :=
  ⟨8796093022208000, -40, by omega, rfl, by omega, le_rfl, le_rfl⟩

/-- Seconds that so many megabytes take over so many megabits per second. -/
theorem float_transfer_nonneg {n b : Nat} (hn : n < 2 ^ 64) (hpos : 0 < b) (hb : b < 2 ^ 64) :
    0 ≤ Float.ofNat n / (Float.ofNat b / Float.ofNat 8000) := by
  have hrate : InRange (Float.ofNat b / Float.ofNat 8000) (-65) 2 :=
    (inRange_ofNat hpos hb).div inRange_8000 (by omega) (by omega)
  by_cases hzero : n = 0
  · obtain ⟨m, e, hm, hrate, -⟩ := hrate
    have hquotient : (Float.ofNat n / (Float.ofNat b / Float.ofNat 8000)).toModel.unpack
        = UnpackedFloat.unpack .binary64 (UnpackedFloat.pack .binary64 (UnpackedFloat.div .binary64
          (Float.ofNat n).toModel.unpack (Float.ofNat b / Float.ofNat 8000).toModel.unpack)) := rfl
    have hnone : (Float.ofNat 0).toModel.unpack = .zero .positive := rfl
    rw [hzero, hnone, hrate, UnpackedFloat.div, unpack_pack_zero] at hquotient
    rw [float_nonneg_iff, hzero, hquotient]
    exact .zero _
  · exact ((inRange_ofNat (by omega) hn).div hrate (by omega) (by omega)).nonneg

end Datacenter
