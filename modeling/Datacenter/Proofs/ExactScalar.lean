import Mathlib.Data.Rat.Cast.OfScientific
import Mathlib.Data.Rat.Floor
import Mathlib.Data.Rat.Sqrt
import Mathlib.Tactic.Linarith
import Datacenter.Proofs.Amounts

/-!
# Exact compute rates

Over an ordered field nothing is rounded, and compute rates are amounts without loss.

Main statement: `isAmount_mips`.
-/

namespace Datacenter

/-- Numbers of an ordered field, with a root and an upper bound of the numbers in use. -/
class ExactScalar (K : Type) extends Field K, LinearOrder K, IsStrictOrderedRing K where
  root : K → K
  largest : K
  natCeil : K → Nat

instance {K : Type} [ExactScalar K] : Scalar K where
  decLt := inferInstance
  decLe := inferInstance
  ofNat n := n
  sqrt := ExactScalar.root
  largest := ExactScalar.largest
  natCeil := ExactScalar.natCeil

/-- The rational numbers, up to the largest finite one of 64 bits. -/
instance : ExactScalar ℚ where
  root := Rat.sqrt
  largest := (2 ^ 53 - 1) * 2 ^ 971
  natCeil := Nat.ceil

variable {K : Type} [ExactScalar K]

theorem Scalar.larger_eq_max (a b : K) : larger a b = max a b := by
  rw [larger]
  rcases lt_or_ge b a with hlt | hle
  · rw [if_pos hlt, max_eq_left (le_of_lt hlt)]
  · rw [if_neg (not_lt_of_ge hle), if_pos (le_refl b), max_eq_right hle]

theorem Scalar.clampUnit_nonneg (u : K) : 0 ≤ clampUnit u := by
  unfold clampUnit
  split_ifs <;> linarith

theorem Scalar.clampUnit_le_one (u : K) : clampUnit u ≤ 1 := by
  unfold clampUnit
  split_ifs <;> linarith

theorem Scalar.clampUnit_of_nonpos {u : K} (h : u ≤ 0) : clampUnit u = 0 := by
  unfold clampUnit
  split_ifs <;> linarith

theorem Scalar.clampUnit_of_one_le {u : K} (h : 1 ≤ u) : clampUnit u = 1 := by
  unfold clampUnit
  split_ifs <;> linarith

theorem Scalar.clampUnit_mono {u w : K} (h : u ≤ w) : clampUnit u ≤ clampUnit w := by
  unfold clampUnit
  split_ifs <;> linarith

theorem Resources.isAmount_mips : IsAmount fun r : Resources K => r.mips where
  zero := rfl
  add h := ((add_eq_ok_iff _ _ _).mp h).1
  sub {a b} h := by
    have hsub : (a.sub b).mips = a.mips - b.mips := by
      rw [mips_sub, Scalar.larger_eq_max]
      exact max_eq_left (sub_nonneg.mpr h)
    rw [hsub]
    exact sub_add_cancel a.mips b.mips
  le_sub a b := by
    have hle : a.mips - b.mips ≤ (a.sub b).mips := by
      rw [mips_sub, Scalar.larger_eq_max]
      exact le_max_left _ _
    exact sub_le_iff_le_add.mp hle

end Datacenter
