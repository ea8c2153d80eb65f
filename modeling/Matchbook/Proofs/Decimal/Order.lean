/-
  The order of decimals is the order of the numbers that they stand for.

  * `compare_isLE_iff` reads it off the cross-multiplied coefficients;
  * the order is total; decimals that compare equal may have different digits.
-/
import Matchbook.Decimal.Basic

namespace Matchbook.Decimal

theorem compare_def (a b : Decimal) : Ord.compare a b = a.compare b := rfl

theorem compare_isLE_iff {a b : Decimal} : (a.compare b).isLE = true ↔
    a.signed * powerOfTen b.scale ≤ b.signed * powerOfTen a.scale := Std.isLE_compare

instance : Std.OrientedOrd Decimal where
  eq_swap {a b} := by
    show a.compare b = (b.compare a).swap
    unfold compare
    exact Std.OrientedOrd.eq_swap

instance : Std.TransOrd Decimal where
  isLE_trans {a b c} hab hbc := by
    rw [compare_def, compare_isLE_iff] at hab hbc ⊢
    have hpos : ∀ d : Decimal, (0 : Int) < powerOfTen d.scale := fun d =>
      Int.natCast_pos.2 (powerOfTen_pos d.scale)
    refine Int.le_of_mul_le_mul_right ?_ (hpos b)
    calc a.signed * powerOfTen c.scale * powerOfTen b.scale
        = a.signed * powerOfTen b.scale * powerOfTen c.scale := Int.mul_right_comm _ _ _
      _ ≤ b.signed * powerOfTen a.scale * powerOfTen c.scale :=
        Int.mul_le_mul_of_nonneg_right hab (Int.le_of_lt (hpos c))
      _ = b.signed * powerOfTen c.scale * powerOfTen a.scale := Int.mul_right_comm _ _ _
      _ ≤ c.signed * powerOfTen b.scale * powerOfTen a.scale :=
        Int.mul_le_mul_of_nonneg_right hbc (Int.le_of_lt (hpos a))
      _ = c.signed * powerOfTen a.scale * powerOfTen b.scale := Int.mul_right_comm _ _ _

end Matchbook.Decimal
