import Mathlib
import Datacenter.Proofs.FloatNumbers

/-!
# Rounding of floats

A mantissa is shifted until it has the bits that a float holds, rounded, and shifted once more if
rounding has made it longer. So what a float can hold, and is not larger before rounding, is not
larger after it. What rounding gives comes back from its bits, unless its exponent is too large for
them: then an infinity does.

Main statements: `roundWithAccuracy_eq`, `round_eq` and `unpack_pack_of_fits`.
-/

namespace Datacenter

open Float.Model UnpackedFloat

/-! ### Shifts -/

theorem mantissa_shiftRight (em : ExtendedMantissa) (k : Nat) :
    (em >>> k).mantissa = em.mantissa / 2 ^ k := by
  induction k with
  | zero => exact (Nat.div_one _).symm
  | succ k ih =>
    show (em >>> k).mantissa / 2 = _
    rw [ih, Nat.div_div_eq_div_mul, Nat.pow_succ]

theorem roundedMantissa_cases (em : ExtendedMantissa) :
    em.roundedMantissa = em.mantissa ∨ em.roundedMantissa = em.mantissa + 1 := by
  rcases em with ⟨m, _ | _, _ | _⟩
  · exact .inl rfl
  · exact .inl rfl
  · show m + m % 2 = m ∨ m + m % 2 = m + 1
    omega
  · exact .inr rfl

/-- Mantissas are shifted until they have 53 bits, if they have more. -/
theorem shiftToTargetExponent_eq {e : Int} (he : -1074 ≤ e) (m : Nat) (accuracy : Accuracy) :
    ∃ em, shiftToTargetExponent .binary64 m e accuracy = (em, e + (m.log2 - 52 : Nat))
      ∧ em.mantissa = m / 2 ^ (m.log2 - 52) := by
  have hshift : (Format.binary64.targetExponent (totalExponent m e) - e).toNat = m.log2 - 52 := by
    simp only [Format.targetExponent, totalExponent, Format.mantissaBits, Format.minExponent]
    omega
  have hstart : (ExtendedMantissa.ofMantissaAndAccuracy m accuracy).mantissa = m := by
    rcases accuracy with _ | (_ | _ | _) <;> rfl
  refine ⟨_, by rw [shiftToTargetExponent, shiftToExponent, hshift], ?_⟩
  rw [mantissa_shiftRight, hstart]

/-- Numbers with more bits are cut to 53 bits, and shorter ones stay as they are. -/
structure Cut (m q : Nat) : Prop where
  pos : 0 < q
  bound : q < 2 ^ 53
  long : 52 ≤ m.log2 → 2 ^ 52 ≤ q
  short : m.log2 < 52 → q < 2 ^ 52

theorem cut_div {m : Nat} (hm : 0 < m) : Cut m (m / 2 ^ (m.log2 - 52)) := by
  have hlow : 2 ^ m.log2 ≤ m := Nat.log2_self_le hm.ne'
  have hhigh : m < 2 ^ (m.log2 + 1) := Nat.lt_log2_self
  have hlong : 52 ≤ m.log2 → 2 ^ 52 ≤ m / 2 ^ (m.log2 - 52) := by
    intro h
    rw [Nat.le_div_iff_mul_le (by positivity), ← Nat.pow_add]
    have hsum : 52 + (m.log2 - 52) = m.log2 := by omega
    rwa [hsum]
  have hshort : m.log2 < 52 → m / 2 ^ (m.log2 - 52) = m ∧ m < 2 ^ 52 := by
    intro h
    have hzero : m.log2 - 52 = 0 := by omega
    refine ⟨by rw [hzero, Nat.pow_zero, Nat.div_one], ?_⟩
    exact (Nat.log2_lt hm.ne').mp h
  refine ⟨?_, ?_, hlong, fun h => by rw [(hshort h).1]; exact (hshort h).2⟩
  · by_cases h : 52 ≤ m.log2
    · exact (by positivity : 0 < 2 ^ 52).trans_le (hlong h)
    · rw [(hshort (by omega)).1]
      exact hm
  · rw [Nat.div_lt_iff_lt_mul (by positivity), ← Nat.pow_add]
    exact hhigh.trans_le (Nat.pow_le_pow_right (by omega) (by omega))

/-! ### Rounding -/

/-- How a mantissa and an exponent come out of rounding. -/
structure Rounded (m : Nat) (e : Int) (m' : Nat) (e' : Int) : Prop where
  bound : m' < 2 ^ 53
  lower : e + (m.log2 - 52 : Nat) ≤ e'
  upper : e' ≤ e + (m.log2 - 52 : Nat) + 1
  floor : e' = e + (m.log2 - 52 : Nat) → m / 2 ^ (m.log2 - 52) ≤ m'
  long : 52 ≤ m.log2 → 2 ^ 52 ≤ m'
  short : m.log2 < 52 → e' = e

/-- A mantissa that is rounded up to 54 bits is shifted once more. -/
theorem roundWithAccuracy_eq {m : Nat} {e : Int} (hm : 0 < m) (he : -1074 ≤ e) (sign : Sign)
    (accuracy : Accuracy) : ∃ m' e' hm', roundWithAccuracy .binary64 sign m e accuracy
      = .finite sign m' e' hm' ∧ Rounded m e m' e' := by
  obtain ⟨em, hfirst, hem⟩ := shiftToTargetExponent_eq he m accuracy
  obtain ⟨em', hsecond, hem'⟩ := shiftToTargetExponent_eq (e := e + (m.log2 - 52 : Nat))
    (by omega) em.roundedMantissa .exact
  have hcut := cut_div hm
  have hround := roundedMantissa_cases em
  rw [hem] at hround
  have hresult : roundWithAccuracy .binary64 sign m e accuracy
      = if h : em'.mantissa = 0 then .zero sign
        else .finite sign em'.mantissa
          (e + (m.log2 - 52 : Nat) + (em.roundedMantissa.log2 - 52 : Nat))
          (Nat.pos_of_ne_zero h) := by
    rw [roundWithAccuracy, hfirst]
    simp only [hsecond]
  have hpos := hcut.pos
  have hbound := hcut.bound
  by_cases hfull : em.roundedMantissa < 2 ^ 53
  · have hlog : em.roundedMantissa.log2 - 52 = 0 := by
      have hlt : em.roundedMantissa.log2 < 53 := (Nat.log2_lt (by omega)).mpr hfull
      omega
    rw [hlog, Nat.pow_zero, Nat.div_one] at hem'
    have hne : em'.mantissa ≠ 0 := by omega
    refine ⟨em'.mantissa, _, Nat.pos_of_ne_zero hne, by rw [hresult, dif_neg hne], ?_⟩
    rw [hlog, hem']
    refine ⟨hfull, by omega, by omega, fun _ => by omega, fun h => ?_, fun h => by omega⟩
    have hlong := hcut.long h
    omega
  · have hfull' : em.roundedMantissa = 2 ^ 53 := by omega
    have hlog : em.roundedMantissa.log2 = 53 := by rw [hfull', Nat.log2_two_pow]
    rw [hlog, hfull'] at hem'
    have hne : em'.mantissa ≠ 0 := by omega
    refine ⟨em'.mantissa, _, Nat.pos_of_ne_zero hne, by rw [hresult, dif_neg hne], ?_⟩
    rw [hlog, hem']
    refine ⟨by omega, by omega, by omega, fun h => by omega, fun _ => by omega, fun h => ?_⟩
    have hshort := hcut.short h
    omega

/-- A mantissa and an exponent of 64 bits: only with the least exponent the mantissa is short. -/
structure Fits (m : Nat) (e : Int) : Prop where
  bound : m < 2 ^ 53
  least : -1074 ≤ e
  short : 2 ^ 52 ≤ m ∨ e = -1074

theorem Rounded.fits {m m' : Nat} {e e' : Int} (h : Rounded m e m' e') (he : -1074 ≤ e)
    (hshort : 52 ≤ m.log2 ∨ e = -1074) : Fits m' e' := by
  refine ⟨h.bound, by have := h.lower; omega, ?_⟩
  by_cases hlong : 52 ≤ m.log2
  · exact .inl (h.long hlong)
  · have hsame := h.short (by omega)
    exact .inr (by omega)

/-- What fits and is not larger before rounding is not larger after it. -/
theorem Rounded.le {m m' m₀ : Nat} {e e' e₀ : Int} (h : Rounded m e m' e') (he : -1074 ≤ e)
    (h₀ : Fits m₀ e₀) (hm : 0 < m) (he₀ : e ≤ e₀) (hle : m₀ * 2 ^ (e₀ - e).toNat ≤ m) :
    e₀ < e' ∨ e₀ = e' ∧ m₀ ≤ m' := by
  have hlower := h.lower
  have hshift : (e₀ - e).toNat ≤ m.log2 - 52 := by
    rcases h₀.short with hlong | hleast
    · have hbits : 52 + (e₀ - e).toNat ≤ m.log2 := by
        rw [Nat.le_log2 hm.ne', Nat.pow_add]
        exact (Nat.mul_le_mul_right _ hlong).trans hle
      omega
    · omega
  by_cases hlater : e₀ < e'
  · exact .inl hlater
  · have hsame : m.log2 - 52 = (e₀ - e).toNat := by omega
    have hfloor := h.floor (by omega)
    rw [hsame] at hfloor
    refine .inr ⟨by omega, ?_⟩
    exact ((Nat.le_div_iff_mul_le (by positivity)).mpr hle).trans hfloor

theorem log2_mul_two_pow {m : Nat} (hm : 0 < m) (k : Nat) :
    (m * 2 ^ k).log2 = m.log2 + k := by
  have hlow : 2 ^ m.log2 ≤ m := Nat.log2_self_le hm.ne'
  have hhigh : m < 2 ^ (m.log2 + 1) := Nat.lt_log2_self
  rw [Nat.log2_eq_iff (Nat.mul_pos hm (by positivity)).ne']
  constructor
  · rw [Nat.pow_add]
    exact Nat.mul_le_mul_right _ hlow
  · have hsum : m.log2 + k + 1 = m.log2 + 1 + k := by omega
    rw [hsum, Nat.pow_add _ (m.log2 + 1)]
    exact Nat.mul_lt_mul_of_pos_right hhigh (by positivity)

/-- Short mantissas are shifted to the left first, as far as exponents go. -/
theorem round_eq {m : Nat} {e : Int} (hm : 0 < m) (he : -1074 ≤ e) (sign : Sign) :
    ∃ m' e' hm', UnpackedFloat.round .binary64 sign m e = .finite sign m' e' hm'
      ∧ Fits m' e' ∧ max (e + m.log2 - 52) (-1074) ≤ e'
      ∧ e' ≤ max (e + m.log2 - 52) (-1074) + 1
      ∧ ∀ m₀ e₀, Fits m₀ e₀ → e ≤ e₀ → m₀ * 2 ^ (e₀ - e).toNat ≤ m →
        e₀ < e' ∨ e₀ = e' ∧ m₀ ≤ m' := by
  obtain ⟨k, hk⟩ : ∃ k : Nat, k = (e - max (m.log2 + e - 52) (-1074)).toNat := ⟨_, rfl⟩
  have htarget : (e - Format.binary64.targetExponent (totalExponent m e)).toNat = k := by
    simp only [Format.targetExponent, totalExponent, Format.mantissaBits, Format.minExponent]
    omega
  have hlog := log2_mul_two_pow hm k
  have hm₁ : 0 < m * 2 ^ k := Nat.mul_pos hm (by positivity)
  have he₁ : -1074 ≤ e - k := by omega
  obtain ⟨m', e', hm', heq, hrounded⟩ := roundWithAccuracy_eq hm₁ he₁ sign .exact
  have hlower := hrounded.lower
  have hupper := hrounded.upper
  rw [hlog] at hlower hupper
  refine ⟨m', e', hm', ?_, hrounded.fits he₁ (by omega), by omega, by omega, ?_⟩
  · rw [UnpackedFloat.round, decreaseExponent, htarget, Nat.shiftLeft_eq]
    exact heq
  · intro m₀ e₀ h₀ he₀ hle
    refine hrounded.le he₁ h₀ hm₁ (by omega) ?_
    have hsum : (e₀ - (e - k)).toNat = (e₀ - e).toNat + k := by omega
    rw [hsum, Nat.pow_add, ← Nat.mul_assoc]
    exact Nat.mul_le_mul_right _ hle

/-! ### Packing -/

theorem unpackSign_packComponents (spec : Format) (sign : Sign)
    (exponent : BitVec spec.exponentBits) (mantissa : BitVec spec.mantissaBitsWithoutImplicit) :
    Sign.ofBitVec (unpackSign (packComponents spec sign exponent mantissa)) = sign := by
  have hbits : unpackSign (packComponents spec sign exponent mantissa) = sign.toBitVec := by
    ext i hi
    have hzero : i = 0 := by omega
    simp [unpackSign, packComponents, BitVec.getLsbD_append, BitVec.getElem_append, hzero]
  rw [hbits]
  cases sign <;> rfl

theorem toNat_one_append (bits : BitVec 52) : (1#1 ++ bits).toNat = 2 ^ 52 + bits.toNat := by
  rw [BitVec.toNat_append, ← Nat.shiftLeft_add_eq_or_of_lt bits.isLt]
  rfl

theorem unpack_eq (bits : BitVec Format.binary64.numBits) :
    UnpackedFloat.unpack .binary64 bits
      = if (unpackExponent bits : BitVec 11).toNat = 2047 then
          if (unpackMantissa bits : BitVec 52).toNat = 0 then
            .infinity (Sign.ofBitVec (unpackSign bits))
          else .notANumber
        else if (unpackExponent bits : BitVec 11).toNat = 0 then
          if h : (unpackMantissa bits : BitVec 52).toNat = 0 then
            .zero (Sign.ofBitVec (unpackSign bits))
          else .finite (Sign.ofBitVec (unpackSign bits)) (unpackMantissa bits : BitVec 52).toNat
            (-1074) (Nat.pos_of_ne_zero h)
        else .finite (Sign.ofBitVec (unpackSign bits))
          (2 ^ 52 + (unpackMantissa bits : BitVec 52).toNat)
          ((unpackExponent bits : BitVec 11).toNat - 1075) (by positivity) := by
  have hbias : (Format.binary64.exponentBias
    + Format.binary64.mantissaBitsWithoutImplicit : Int) = 1075 := by decide
  have happend := toNat_one_append (unpackMantissa bits)
  simp only [UnpackedFloat.unpack, hbias, BitVec.toNat_eq]
  split_ifs
  all_goals simp_all

theorem fits_of_unpack {bits : BitVec Format.binary64.numBits} {sign : Sign} {m : Nat} {e : Int}
    {hm : 0 < m} (h : UnpackedFloat.unpack .binary64 bits = .finite sign m e hm) : Fits m e := by
  have hmantissa : (unpackMantissa bits : BitVec 52).toNat < 2 ^ 52 := BitVec.isLt _
  rw [unpack_eq] at h
  split_ifs at h with hlast hzero hfirst hzero
  · rw [finite.injEq] at h
    obtain ⟨-, rfl, rfl⟩ := h
    exact ⟨by omega, by omega, .inr rfl⟩
  · rw [finite.injEq] at h
    obtain ⟨-, rfl, rfl⟩ := h
    exact ⟨by omega, by omega, .inl (by omega)⟩

theorem unpack_packComponents (sign : Sign) {exponent mantissa : Nat} (he : exponent < 2 ^ 11) :
    UnpackedFloat.unpack .binary64
        (packComponents .binary64 sign (BitVec.ofNat 11 exponent) (BitVec.ofNat 52 mantissa))
      = if exponent = 2047 then
          if mantissa % 2 ^ 52 = 0 then .infinity sign else .notANumber
        else if exponent = 0 then
          if h : mantissa % 2 ^ 52 = 0 then .zero sign
          else .finite sign (mantissa % 2 ^ 52) (-1074) (Nat.pos_of_ne_zero h)
        else .finite sign (2 ^ 52 + mantissa % 2 ^ 52) (exponent - 1075) (by positivity) := by
  rw [unpack_eq]
  simp only [unpackMantissa_packComponents, unpackExponent_packComponents,
    unpackSign_packComponents, BitVec.toNat_ofNat, Nat.mod_eq_of_lt he]

/-- What fits comes back from its bits, unless it is too large for them. -/
theorem unpack_pack_of_fits {m : Nat} {e : Int} (h : Fits m e) (sign : Sign) (hm : 0 < m) :
    UnpackedFloat.unpack .binary64 (UnpackedFloat.pack .binary64 (.finite sign m e hm))
      = if e ≤ 971 then .finite sign m e hm else .infinity sign := by
  have hbiased : (e + Format.binary64.exponentBias
      + Format.binary64.mantissaBitsWithoutImplicit).toNat = (e + 1075).toNat := by
    have hbias : (Format.binary64.exponentBias
      + Format.binary64.mantissaBitsWithoutImplicit : Int) = 1075 := by decide
    omega
  have hroom : 2 ^ Format.binary64.exponentBits = 2048 := rfl
  have hwidth : Format.binary64.mantissaBits = 53 := rfl
  have hleast := h.least
  have hbound := h.bound
  have hlow : 2 ^ m.log2 ≤ m := Nat.log2_self_le hm.ne'
  have hhigh : m < 2 ^ (m.log2 + 1) := Nat.lt_log2_self
  rw [UnpackedFloat.pack, hbiased, hroom, hwidth]
  split_ifs with hlarge hfinite hlong hfinite hfinite
  · omega
  · exact unpack_packComponents sign (by omega : 2047 < 2 ^ 11)
  · have hlog : m.log2 = 52 := by omega
    rw [hlog] at hlow hhigh
    rw [unpack_packComponents sign (by omega), if_neg (by omega), if_neg (by omega), finite.injEq]
    exact ⟨rfl, by omega, by omega⟩
  · omega
  · have hlog : m.log2 < 53 := (Nat.log2_lt hm.ne').mpr hbound
    have hshort : m < 2 ^ 52 := (Nat.log2_lt hm.ne').mp (by omega)
    have hsame : m % 2 ^ 52 = m := Nat.mod_eq_of_lt hshort
    refine (unpack_packComponents sign (by omega : 0 < 2 ^ 11)).trans ?_
    rw [if_neg (by omega), if_pos rfl, dif_neg (by omega), finite.injEq]
    exact ⟨rfl, hsame, by rcases h.short with hlarge | hleast <;> omega⟩
  · omega

theorem unpack_pack_zero (sign : Sign) :
    UnpackedFloat.unpack .binary64 (UnpackedFloat.pack .binary64 (.zero sign)) = .zero sign :=
  unpack_packComponents sign (by omega : 0 < 2 ^ 11)

theorem unpack_pack_infinity (sign : Sign) :
    UnpackedFloat.unpack .binary64 (UnpackedFloat.pack .binary64 (.infinity sign))
      = .infinity sign :=
  unpack_packComponents sign (by omega : 2047 < 2 ^ 11)

theorem unpack_pack_notANumber :
    UnpackedFloat.unpack .binary64 (UnpackedFloat.pack .binary64 .notANumber) = .notANumber :=
  unpack_packComponents .positive (by omega : 2047 < 2 ^ 11)

end Datacenter
