/-
  The numbers that decimals stand for.

  * `value d` is the number; the order of decimals is that of their values
    (`compare_isLE_iff_value_le`), and so is the sign (`isBelowZero_iff_value_neg`);
  * `value_ofParts?`, `value_neg`, `value_ofUInt64` say what decimals that are built stand
    for;
  * `ceil_toUInt64?`: rounding up gives the least whole number that is not below, if it is a
    64-bit one.
-/
import Mathlib.Algebra.Order.Field.Basic
import Mathlib.Algebra.Order.Floor.Semiring
import Mathlib.Data.Rat.Cast.Order
import Mathlib.Data.Rat.Floor
import Mathlib.Tactic.FieldSimp
import Mathlib.Tactic.Linarith
import Mathlib.Tactic.NormNum
import Mathlib.Tactic.Positivity
import Matchbook.Proofs.Decimal.Magnitude

namespace Matchbook

theorem cast_powerOfTen (n : Nat) : (powerOfTen n : ℚ) = 10 ^ n :=
  Nat.cast_pow 10 n

/-- Division with remainder. -/
theorem cast_div_add_mod (n m : Nat) : ((n / m : Nat) : ℚ) * m + (n % m : Nat) = n := by
  exact_mod_cast Nat.div_add_mod' n m

namespace Decimal

variable {a b d : Decimal}

/-- The number that is meant. -/
def value (d : Decimal) : ℚ := d.signed / 10 ^ d.scale

/-- The number with a minus sign, or as it is. -/
def withSign (negative : Bool) (x : ℚ) : ℚ := if negative then -x else x

theorem value_eq_withSign (d : Decimal) :
    d.value = withSign d.negative (d.coefficient / 10 ^ d.scale) := by
  unfold value signed withSign
  split
  · rw [Int.cast_neg, Int.cast_natCast, neg_div]
  · rw [Int.cast_natCast]

theorem value_zero : zero.value = 0 := by simp [value]

theorem value_ofUInt64 (t : UInt64) : (ofUInt64 t).value = t.toNat := by
  simp [value_eq_withSign, withSign, ofUInt64, ofNat]

theorem value_neg (d : Decimal) : d.neg.value = -d.value := by
  rw [value, value, neg_signed, neg_scale, Int.cast_neg, neg_div]

theorem value_ofParts? {negative : Bool} {c s : Nat} (h : ofParts? negative c s = some d) :
    d.value = withSign negative (c / 10 ^ s) := by
  unfold ofParts? at h
  split at h
  · cases h
    rw [value_eq_withSign]
    by_cases hc : c = 0
    · subst hc
      cases negative <;> simp [withSign]
    · rw [bne_iff_ne.2 hc, Bool.and_true]
  · cases h

theorem isZero_iff_value (d : Decimal) : d.isZero = true ↔ d.value = 0 := by
  rw [isZero_iff, value, div_eq_zero_iff, Int.cast_eq_zero]
  exact (or_iff_left (by positivity)).symm

theorem isBelowZero_iff_value_neg (d : Decimal) : d.isBelowZero = true ↔ d.value < 0 := by
  rw [isBelowZero_iff, value, div_lt_iff₀ (by positivity), zero_mul, Int.cast_lt_zero]

theorem isBelowZero_eq_false_iff (d : Decimal) : d.isBelowZero = false ↔ 0 ≤ d.value := by
  rw [← Bool.not_eq_true, isBelowZero_iff_value_neg, not_lt]

/-- The order is that of the numbers. -/
theorem compare_isLE_iff_value_le : (a.compare b).isLE = true ↔ a.value ≤ b.value := by
  rw [compare_isLE_iff, value, value, div_le_div_iff₀ (by positivity) (by positivity),
    ← cast_powerOfTen, ← cast_powerOfTen]
  exact_mod_cast Iff.rfl

/-- Over a larger denominator. -/
theorem value_mul_pow (d : Decimal) {s : Nat} (hs : d.scale ≤ s) :
    ((d.signed * powerOfTen (s - d.scale) : Int) : ℚ) / 10 ^ s = d.value := by
  rw [Int.cast_mul, Int.cast_natCast, cast_powerOfTen, ← pow_sub_mul_pow 10 hs, value, mul_comm,
    mul_div_mul_left _ _ (by positivity)]

/-! ## Rounding up -/

/-- A number that is not below zero is its digits. -/
theorem coefficient_eq_value_mul (hd : 0 ≤ d.value) :
    (d.coefficient : ℚ) = d.value * 10 ^ d.scale ∧ (d.negative = true → d.coefficient = 0) := by
  have hpos : (0 : ℚ) < 10 ^ d.scale := by positivity
  rw [value_eq_withSign] at hd ⊢
  cases hn : d.negative with
  | false => exact ⟨(div_mul_cancel₀ _ hpos.ne').symm, nofun⟩
  | true =>
    simp only [hn, withSign, if_true] at hd
    have hle : (d.coefficient : ℚ) / 10 ^ d.scale ≤ 0 := by linarith
    rw [div_le_iff₀ hpos, zero_mul] at hle
    have hzero : d.coefficient = 0 := Nat.le_zero.1 (by exact_mod_cast hle)
    simp [hzero, withSign]

theorem ceil_spec (hd : 0 ≤ d.value) : d.ceil.scale = 0 ∧ d.value ≤ d.ceil.value ∧
    d.ceil.value < d.value + 1 := by
  obtain ⟨hvalue, hnegative⟩ := coefficient_eq_value_mul hd
  have hpos : (0 : ℚ) < 10 ^ d.scale := by positivity
  unfold ceil
  split
  · next hs => exact ⟨hs, le_rfl, by linarith⟩
  · next hs =>
    have hten : 10 ≤ powerOfTen d.scale := powerOfTen_le_of_le (Nat.one_le_iff_ne_zero.2 hs)
    have hmod := Nat.div_add_mod' d.coefficient (powerOfTen d.scale)
    have hlt := Nat.mod_lt d.coefficient (powerOfTen_pos d.scale)
    have hzero : d.negative = true → d.coefficient % powerOfTen d.scale = 0 := fun h => by
      rw [hnegative h, Nat.zero_mod]
    dsimp only
    -- the digits behind the point are dropped, and made up for by one
    generalize hup : (!d.negative && d.coefficient % powerOfTen d.scale != 0) = up
    generalize hwhole : (if up then d.coefficient / powerOfTen d.scale + 1
      else d.coefficient / powerOfTen d.scale) = whole
    have hbounds : d.coefficient ≤ whole * powerOfTen d.scale ∧
        whole * powerOfTen d.scale < d.coefficient + powerOfTen d.scale := by
      subst hwhole
      cases up with
      | true =>
        simp only [Bool.and_eq_true, bne_iff_ne] at hup
        simp only [if_true, Nat.add_mul]
        omega
      | false =>
        simp only [Bool.and_eq_false_iff, Bool.not_eq_false', bne_eq_false_iff_eq] at hup
        rw [if_neg Bool.false_ne_true]
        have := hup.elim hzero id
        omega
    have hfits : whole < coefficientBound := by
      by_contra hlarge
      have hone : 1 ≤ whole := Nat.le_trans (by decide) (Nat.le_of_not_lt hlarge)
      obtain ⟨w, rfl⟩ := Nat.exists_eq_add_of_le' hone
      have hbound := d.coefficient_lt
      have hmul := Nat.mul_le_mul_left w hten
      rw [Nat.add_mul, Nat.one_mul] at hbounds
      omega
    obtain ⟨e, he, -, hscale⟩ := exists_ofParts? d.negative hfits (Nat.zero_le maxScale)
    have hvalue' : e.value = whole := by
      rw [value_ofParts? he, pow_zero, div_one]
      cases hn : d.negative with
      | false => rfl
      | true =>
        have hwhole0 : whole = 0 := by
          have := hbounds.2
          rw [hnegative hn, Nat.zero_add] at this
          exact Nat.lt_one_iff.1 (Nat.lt_of_mul_lt_mul_right (by rwa [Nat.one_mul]))
        simp [withSign, hwhole0]
    rw [he, Option.getD_some, hvalue']
    refine ⟨hscale, ?_, ?_⟩
    · rw [← mul_le_mul_iff_left₀ hpos, ← hvalue, ← cast_powerOfTen]
      exact_mod_cast hbounds.1
    · rw [← mul_lt_mul_iff_left₀ hpos, add_mul, ← hvalue, one_mul, ← cast_powerOfTen]
      exact_mod_cast hbounds.2

/-- **Rounding up** gives the least whole number that is not below, if it is a 64-bit one. -/
theorem ceil_toUInt64? (hd : 0 ≤ d.value) :
    d.ceil.toUInt64? = if ⌈d.value⌉₊ < UInt64.size then some (.ofNat ⌈d.value⌉₊) else none := by
  obtain ⟨hscale, hge, hlt⟩ := ceil_spec hd
  obtain ⟨hvalue, hnegative⟩ := coefficient_eq_value_mul (le_trans hd hge)
  rw [hscale, pow_zero, mul_one] at hvalue
  have hceil : ⌈d.value⌉₊ = d.ceil.coefficient := by
    rw [← hvalue] at hge hlt
    refine Nat.le_antisymm (Nat.ceil_le.2 hge) (Nat.lt_succ_iff.1 ?_)
    have hnext : (d.ceil.coefficient : ℚ) < ⌈d.value⌉₊ + 1 :=
      hlt.trans_le (add_le_add_left (Nat.le_ceil _) 1)
    exact_mod_cast hnext
  unfold toUInt64?
  simp only [hscale, powerOfTen_zero, Nat.div_one]
  rw [hceil, if_neg (by simpa using hnegative)]

end Decimal
end Matchbook
