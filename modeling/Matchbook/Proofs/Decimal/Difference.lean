/-
  A difference has the sign that the comparison says, rounded as it may be.

  * `digitsToDrop_spec`: as few digits are dropped as possible, so that what is
    left of a number that is too long is still long;
  * `fit_signed_neg_iff`: no number with at most 28 fraction digits is rounded to
    zero, and the sign stays;
  * `sub_isBelowZero_iff`: a difference is below zero exactly if the first number
    is the smaller one.
-/
import Matchbook.Decimal.Arithmetic
import Matchbook.Proofs.Decimal.Order

namespace Matchbook.Decimal

/-! ## Dropping digits -/

/-- What is left of a number after dropping digits is below the bound; with one
    digit more it would not be, or there would be too many fraction digits. -/
theorem digitsToDrop_spec {m s k : Nat} (h : digitsToDrop m s = some k) :
    k ≤ s ∧ s ≤ maxScale + k ∧ m / powerOfTen k < coefficientBound ∧
      ∀ j < k, s ≤ maxScale + j → coefficientBound ≤ m / powerOfTen j := by
  simp only [digitsToDrop, List.find?_range_eq_some, List.mem_range, Bool.and_eq_true,
    decide_eq_true_eq, Bool.not_eq_true', Bool.and_eq_false_iff, decide_eq_false_iff_not] at h
  obtain ⟨⟨hs, hlt⟩, hk, hmin⟩ := h
  refine ⟨by omega, hs, hlt, fun j hj hsj => ?_⟩
  rcases hmin j hj with hn | hn
  · exact absurd hsj hn
  · exact Nat.le_of_not_lt hn

/-- A number that loses digits, none of them for want of fraction digits, has
    nearly as many left as fit. -/
theorem le_div_of_digitsToDrop {m s k : Nat} (h : digitsToDrop m s = some k) (hs : s ≤ maxScale)
    (hk : k ≠ 0) : coefficientBound / 10 ≤ m / powerOfTen k := by
  obtain ⟨j, rfl⟩ := Nat.exists_eq_succ_of_ne_zero hk
  obtain ⟨-, -, -, hmin⟩ := digitsToDrop_spec h
  calc coefficientBound / 10
      ≤ m / powerOfTen j / 10 := Nat.div_le_div_right (hmin j (Nat.lt_succ_self j) (by omega))
    _ = m / powerOfTen (j + 1) := by rw [Nat.div_div_eq_div_mul, powerOfTen_succ]

/-! ## The sign -/

theorem signed_neg_iff (d : Decimal) : d.signed < 0 ↔ d.negative = true ∧ d.coefficient ≠ 0 := by
  unfold signed
  cases d.negative with
  | false => simp
  | true =>
    simp only [reduceIte, true_and]
    omega

theorem signed_neg_of_ofParts? {negative : Bool} {c s : Nat} {d : Decimal}
    (h : ofParts? negative c s = some d) : d.signed < 0 ↔ negative = true ∧ c ≠ 0 := by
  unfold ofParts? at h
  split at h
  · cases h
    simp [signed_neg_iff]
  · cases h

/-- **The sign stays**: a number with at most 28 fraction digits is not rounded to
    zero. -/
theorem fit_signed_neg_iff {negative : Bool} {m s : Nat} (hs : s ≤ maxScale) {d : Decimal}
    (h : fit negative m s = some d) : d.signed < 0 ↔ negative = true ∧ m ≠ 0 := by
  unfold fit at h
  cases hk : digitsToDrop m s with
  | none =>
    rw [hk] at h
    cases h
  | some k =>
    rw [hk] at h
    have hbound : 10 ≤ coefficientBound / 10 := by decide
    have hquotient := div_le_roundHalfEven m (powerOfTen k)
    have hzero : roundHalfEven m (powerOfTen k) ≠ 0 ↔ m ≠ 0 := by
      by_cases hk0 : k = 0
      · subst hk0
        rw [powerOfTen_zero, ← Nat.mul_one m, roundHalfEven_mul _ _ Nat.one_pos, Nat.mul_one]
      · have hlong := le_div_of_digitsToDrop hk hs hk0
        have hdiv := Nat.div_le_self m (powerOfTen k)
        omega
    dsimp only at h
    split at h
    · rw [signed_neg_of_ofParts? h, hzero]
    · next hfull =>
      split at h
      · cases h
      · -- rounding has reached the bound: one digit more is dropped
        have htenth := div_le_roundHalfEven (roundHalfEven m (powerOfTen k)) 10
        rw [signed_neg_of_ofParts? h, ← hzero]
        have htenth' : 10 ≤ roundHalfEven m (powerOfTen k) / 10 :=
          Nat.le_trans hbound (Nat.div_le_div_right (Nat.le_of_not_lt hfull))
        refine and_congr_right fun _ => iff_of_true ?_ ?_ <;> omega

theorem neg_signed (d : Decimal) : d.neg.signed = -d.signed := by
  unfold neg
  by_cases h : d.isZero = true
  · rw [if_pos h, (d.isZero_iff).1 h, Int.neg_zero]
  · rw [if_neg h]
    unfold signed
    cases d.negative <;> simp

/-- Over the larger of the two denominators the coefficients compare as the numbers
    do. -/
theorem compare_eq_lt_iff (a b : Decimal) : a.compare b = .lt ↔
    a.signed * powerOfTen (max a.scale b.scale - a.scale) -
      b.signed * powerOfTen (max a.scale b.scale - b.scale) < 0 := by
  have hpos : (0 : Int) < powerOfTen (min a.scale b.scale) := Int.natCast_pos.2 (powerOfTen_pos _)
  have ha : (powerOfTen b.scale : Int) =
      powerOfTen (max a.scale b.scale - a.scale) * powerOfTen (min a.scale b.scale) := by
    rw [← Int.natCast_mul, ← powerOfTen_add]
    congr 2
    omega
  have hb : (powerOfTen a.scale : Int) =
      powerOfTen (max a.scale b.scale - b.scale) * powerOfTen (min a.scale b.scale) := by
    rw [← Int.natCast_mul, ← powerOfTen_add]
    congr 2
    omega
  rw [compare, Std.compare_eq_lt, ha, hb, ← Int.mul_assoc, ← Int.mul_assoc,
    Int.mul_lt_mul_right hpos]
  omega

/-- **The sign of a difference**: it is below zero exactly if the first number is
    the smaller one. -/
theorem sub_isBelowZero_iff {a b d : Decimal} (h : a.sub b = .ok d) :
    d.isBelowZero = true ↔ a.compare b = .lt := by
  rw [isBelowZero_iff]
  unfold sub at h
  by_cases ha : a.isZero = true
  · rw [if_pos ha] at h
    cases h
    have hpos : (0 : Int) < powerOfTen a.scale := Int.natCast_pos.2 (powerOfTen_pos _)
    rw [neg_signed, compare, Std.compare_eq_lt, (a.isZero_iff).1 ha, Int.zero_mul,
      ← Int.zero_mul (powerOfTen a.scale : Int), Int.mul_lt_mul_right hpos]
    omega
  · rw [if_neg ha] at h
    by_cases hb : b.isZero = true
    · rw [if_pos hb] at h
      cases h
      have hpos : (0 : Int) < powerOfTen b.scale := Int.natCast_pos.2 (powerOfTen_pos _)
      rw [compare, Std.compare_eq_lt, (b.isZero_iff).1 hb, Int.zero_mul]
      simpa using (Int.mul_lt_mul_right (b := a.signed) (c := 0) hpos).symm
    · rw [if_neg hb] at h
      cases hc : combine (· - ·) a b with
      | none =>
        rw [hc] at h
        cases h
      | some c =>
        rw [hc] at h
        cases h
        rw [fit_signed_neg_iff (Nat.max_le.2 ⟨a.scale_le, b.scale_le⟩) hc, compare_eq_lt_iff,
          decide_eq_true_iff]
        exact and_iff_left_of_imp fun hn h0 => by omega

end Matchbook.Decimal
