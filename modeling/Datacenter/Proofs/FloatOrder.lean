import Mathlib.Algebra.Order.Ring.Int
import Mathlib.Data.Prod.Lex
import Datacenter.Proofs.ExactScalar

/-!
# Comparisons of scalars

Whether a number is the smallest of several only makes sense if comparisons fit together. Those of
an ordered field do, and so do those of machine floats: a float that is a number has a rank by sign,
exponent and mantissa, and floats are compared by their ranks. A float that is no number has no
rank, and is neither smaller nor larger than anything.

Main statements: `compare_eq_compare_rank` and the instances of `OrderedScalar`.
-/

namespace Datacenter

/-- Comparisons of a scalar type that fit together. Not every scalar is below or equal to itself. -/
class OrderedScalar (α : Type) [Scalar α] : Prop where
  lt_irrefl : ∀ a : α, ¬a < a
  lt_trans : ∀ {a b c : α}, a < b → b < c → a < c
  lt_of_le_of_lt : ∀ {a b c : α}, a ≤ b → b < c → a < c

instance {K : Type} [ExactScalar K] : OrderedScalar K where
  lt_irrefl := lt_irrefl
  lt_trans := lt_trans
  lt_of_le_of_lt := lt_of_le_of_lt

/-! ### Ranks of floats -/

open Float.Model

/-- Sign, exponent and mantissa, such that larger numbers have larger ranks. -/
def floatRank : UnpackedFloat → Option (ℤ ×ₗ ℤ ×ₗ ℤ)
  | .notANumber => none
  | .infinity .negative => some (toLex (-2, toLex (0, 0)))
  | .finite .negative m e _ => some (toLex (-1, toLex (-e, -m)))
  | .zero _ => some (toLex (0, toLex (0, 0)))
  | .finite .positive m e _ => some (toLex (1, toLex (e, m)))
  | .infinity .positive => some (toLex (2, toLex (0, 0)))

theorem compare_toLex {α β : Type} [LinearOrder α] [LinearOrder β] (a b : α) (x y : β) :
    compare (toLex (a, x)) (toLex (b, y)) = (compare a b).then (compare x y) := by
  rw [Prod.Lex.compare_def]
  rfl

theorem compare_neg_neg (a b : ℤ) : compare (-a) (-b) = compare b a := by
  rcases lt_trichotomy a b with h | rfl | h
  · rw [compare_gt_iff_gt.mpr (neg_lt_neg h), compare_gt_iff_gt.mpr h]
  · rw [compare_eq_iff_eq.mpr rfl, compare_eq_iff_eq.mpr rfl]
  · rw [compare_lt_iff_lt.mpr (neg_lt_neg h), compare_lt_iff_lt.mpr h]

theorem compare_natCast (m n : ℕ) : compare (m : ℤ) n = compare m n := by
  rcases lt_trichotomy m n with h | rfl | h
  · rw [compare_lt_iff_lt.mpr h, compare_lt_iff_lt.mpr (Int.ofNat_lt.mpr h)]
  · rw [compare_eq_iff_eq.mpr rfl, compare_eq_iff_eq.mpr rfl]
  · rw [compare_gt_iff_gt.mpr h, compare_gt_iff_gt.mpr (Int.ofNat_lt.mpr h)]

/-- Floats are compared by their ranks. -/
theorem compare_eq_compare_rank (a b : UnpackedFloat) :
    a.compare b = (floatRank a).bind fun x => (floatRank b).map fun y => compare x y := by
  rcases a with (_ | _) | _ | _ | ⟨_ | _, m, e, -⟩ <;>
    rcases b with (_ | _) | _ | _ | ⟨_ | _, n, f, -⟩ <;>
    try rfl
  -- Numbers of different kinds or signs are done.
  case finite.positive.finite.positive =>
    change some ((compare e f).then (compare m n))
      = some (compare (toLex ((1 : ℤ), toLex (e, (m : ℤ)))) (toLex (1, toLex (f, (n : ℤ)))))
    rw [compare_toLex, compare_toLex, compare_natCast]
    rfl
  case finite.negative.finite.negative =>
    -- The order of exponents and mantissas is reversed.
    change some ((compare e f).then (compare m n)).swap
      = some (compare (toLex ((-1 : ℤ), toLex (-e, -(m : ℤ)))) (toLex (-1, toLex (-f, -(n : ℤ)))))
    rw [compare_toLex, compare_toLex, compare_neg_neg e f, compare_neg_neg m n, compare_natCast,
      Ordering.swap_then, ← Std.OrientedOrd.eq_swap, ← Std.OrientedOrd.eq_swap]
    rfl

theorem float_lt_iff (a b : Float) :
    a < b ↔ ∃ x y, floatRank a.toModel.unpack = some x ∧ floatRank b.toModel.unpack = some y
      ∧ x < y := by
  have hcompare : a < b ↔ a.toModel.unpack.compare b.toModel.unpack = some .lt := by
    change decide (a.toModel.unpack.lt b.toModel.unpack = true) = true ↔ _
    rw [decide_eq_true_iff, UnpackedFloat.lt, beq_iff_eq]
  simp [hcompare, compare_eq_compare_rank, Option.bind_eq_some_iff, compare_lt_iff_lt]

theorem float_le_iff (a b : Float) :
    a ≤ b ↔ ∃ x y, floatRank a.toModel.unpack = some x ∧ floatRank b.toModel.unpack = some y
      ∧ x ≤ y := by
  have hcompare : a ≤ b ↔ (a.toModel.unpack.compare b.toModel.unpack).any (·.isLE) = true := by
    change decide (a.toModel.unpack.le b.toModel.unpack = true) = true ↔ _
    rw [decide_eq_true_iff, UnpackedFloat.le]
  rw [hcompare, compare_eq_compare_rank]
  cases floatRank a.toModel.unpack with
  | none => simp
  | some x =>
    cases floatRank b.toModel.unpack with
    | none => simp
    | some y => simp [← Ordering.ne_gt_iff_isLE, compare_le_iff_le]

instance : OrderedScalar Float where
  lt_irrefl a h := by
    obtain ⟨x, y, hx, hy, hlt⟩ := (float_lt_iff a a).mp h
    rw [hx, Option.some.injEq] at hy
    exact lt_irrefl x (hy ▸ hlt)
  lt_trans {a b c} hab hbc := by
    obtain ⟨x, y, hx, hy, hlt⟩ := (float_lt_iff a b).mp hab
    obtain ⟨y', z, hy', hz, hlt'⟩ := (float_lt_iff b c).mp hbc
    rw [hy, Option.some.injEq] at hy'
    subst hy'
    exact (float_lt_iff a c).mpr ⟨x, z, hx, hz, hlt.trans hlt'⟩
  lt_of_le_of_lt {a b c} hab hbc := by
    obtain ⟨x, y, hx, hy, hle⟩ := (float_le_iff a b).mp hab
    obtain ⟨y', z, hy', hz, hlt⟩ := (float_lt_iff b c).mp hbc
    rw [hy, Option.some.injEq] at hy'
    subst hy'
    exact (float_lt_iff a c).mpr ⟨x, z, hx, hz, hle.trans_lt hlt⟩

end Datacenter
