/-
  How large decimals are, and why results fit.

  * `Within n`: a decimal lies between `-n` and `n`;
  * `fit_within`: rounding succeeds for what lies between whole numbers below the
    bound, and does not go past them; `fit_near`: it does not so much as double or
    halve what it rounds;
  * `add_within`, `sub_within`, `mul_within`: sums, differences and products of
    decimals that are small enough are computed, and how large they are;
  * `mul_near`, `sub_near`: how large products are at most, and differences at least.
-/
import Matchbook.Proofs.Decimal.Difference

namespace Matchbook.Decimal

/-- The number lies between `-n` and `n`. -/
def Within (n : Nat) (d : Decimal) : Prop := d.coefficient ≤ n * powerOfTen d.scale

instance (n : Nat) (d : Decimal) : Decidable (d.Within n) := Nat.decLe _ _

variable {a b d : Decimal} {m n : Nat}

theorem Within.mono (h : d.Within m) (hmn : m ≤ n) : d.Within n :=
  Nat.le_trans h (Nat.mul_le_mul_right _ hmn)

theorem within_zero (n : Nat) : zero.Within n := Nat.zero_le _

theorem within_ofUInt64 (t : UInt64) : (ofUInt64 t).Within t.toNat :=
  Nat.le_of_eq (Nat.mul_one _).symm

theorem neg_coefficient (d : Decimal) : d.neg.coefficient = d.coefficient := by
  unfold neg
  split <;> rfl

theorem neg_scale (d : Decimal) : d.neg.scale = d.scale := by
  unfold neg
  split <;> rfl

theorem Within.neg (h : d.Within n) : d.neg.Within n := by
  rw [Within, neg_coefficient, neg_scale]
  exact h

theorem natAbs_signed (d : Decimal) : d.signed.natAbs = d.coefficient := by
  unfold signed
  split <;> simp

/-! ## Rounding -/

theorem ofParts?_eq_some {negative : Bool} {c s : Nat} (h : ofParts? negative c s = some d) :
    d.coefficient = c ∧ d.scale = s := by
  unfold ofParts? at h
  split at h
  · cases h
    exact ⟨rfl, rfl⟩
  · cases h

theorem exists_ofParts? (negative : Bool) {c s : Nat} (hc : c < coefficientBound)
    (hs : s ≤ maxScale) :
    ∃ d, ofParts? negative c s = some d ∧ d.coefficient = c ∧ d.scale = s := by
  unfold ofParts?
  rw [dif_pos ⟨hc, hs⟩]
  exact ⟨_, rfl, rfl, rfl⟩

/-- Rounding does not go past a whole number. -/
theorem roundHalfEven_le_of_le {d : Nat} (hd : 0 < d) (h : m ≤ n * d) : roundHalfEven m d ≤ n := by
  have hdiv : m / d ≤ n := Nat.div_le_of_le_mul (Nat.mul_comm n d ▸ h)
  have hmod := Nat.div_add_mod m d
  by_cases hfull : m / d = n
  · have hzero : m % d = 0 := by
      rw [hfull, Nat.mul_comm] at hmod
      omega
    rw [roundHalfEven, hzero, if_pos (by omega)]
    exact hdiv
  · have := roundHalfEven_le m d
    omega

theorem powerOfTen_sub_mul {k s : Nat} (h : k ≤ s) :
    powerOfTen (s - k) * powerOfTen k = powerOfTen s := by
  rw [← powerOfTen_add, Nat.sub_add_cancel h]

/-- **What fits**: a number that lies between whole numbers below the bound is rounded,
    and not past them. -/
theorem fit_within (negative : Bool) {s : Nat} (hm : m ≤ n * powerOfTen s)
    (hn : n < coefficientBound) : ∃ d, fit negative m s = some d ∧ d.Within n := by
  have hdrop : ∃ k, digitsToDrop m s = some k := by
    unfold digitsToDrop
    rw [← Option.isSome_iff_exists, List.find?_isSome]
    refine ⟨s, by simp, ?_⟩
    have : m / powerOfTen s ≤ n := Nat.div_le_of_le_mul (Nat.mul_comm n _ ▸ hm)
    simp only [Bool.and_eq_true, decide_eq_true_eq]
    omega
  obtain ⟨k, hk⟩ := hdrop
  obtain ⟨hks, hscale, hlt, -⟩ := digitsToDrop_spec hk
  have hround : roundHalfEven m (powerOfTen k) ≤ n * powerOfTen (s - k) := by
    refine roundHalfEven_le_of_le (powerOfTen_pos k) ?_
    rwa [Nat.mul_assoc, powerOfTen_sub_mul hks]
  have hle := roundHalfEven_le m (powerOfTen k)
  rw [fit, hk]
  dsimp only
  split
  · next hc =>
    obtain ⟨d, hd, hcoefficient, hdscale⟩ := exists_ofParts? negative hc (s := s - k) (by omega)
    exact ⟨d, hd, by rwa [Within, hcoefficient, hdscale]⟩
  · next hfull =>
    -- rounding has reached the bound, so there are fraction digits to lose
    have hlast : s - k ≠ 0 := by
      intro hzero
      rw [hzero, powerOfTen_zero] at hround
      omega
    obtain ⟨j, hj⟩ := Nat.exists_eq_succ_of_ne_zero hlast
    rw [if_neg hlast]
    have hc : roundHalfEven (roundHalfEven m (powerOfTen k)) 10 < coefficientBound := by
      have hbound : 10 ≤ coefficientBound := by decide
      have hten := roundHalfEven_le (roundHalfEven m (powerOfTen k)) 10
      omega
    obtain ⟨d, hd, hcoefficient, hdscale⟩ := exists_ofParts? negative hc (s := s - k - 1) (by omega)
    refine ⟨d, hd, ?_⟩
    rw [Within, hcoefficient, hdscale, hj, Nat.succ_sub_one]
    rw [hj, powerOfTen_succ, ← Nat.mul_assoc] at hround
    exact roundHalfEven_le_of_le (by decide) hround

/-- **Rounding stays near**: the digits that are dropped from a number with at most 28
    fraction digits do not make it double or half as large. -/
theorem fit_near {negative : Bool} {s : Nat} (hs : s ≤ maxScale)
    (h : fit negative m s = some d) : ∃ k, d.scale + k = s ∧
      d.coefficient * powerOfTen k ≤ 2 * m ∧ m ≤ 2 * (d.coefficient * powerOfTen k) := by
  unfold fit at h
  cases hk : digitsToDrop m s with
  | none =>
    rw [hk] at h
    cases h
  | some k =>
    obtain ⟨hks, -, hlt, -⟩ := digitsToDrop_spec hk
    rw [hk] at h
    dsimp only at h
    by_cases hk0 : k = 0
    · subst hk0
      rw [powerOfTen_zero, Nat.div_one] at hlt
      rw [powerOfTen_zero, ← Nat.mul_one m, roundHalfEven_mul _ _ Nat.one_pos, if_pos hlt] at h
      obtain ⟨hcoefficient, hscale⟩ := ofParts?_eq_some h
      exact ⟨0, hscale, by rw [hcoefficient, powerOfTen_zero]; omega⟩
    -- enough digits are left for the last of them not to matter
    have hlong := le_div_of_digitsToDrop hk hs hk0
    have hten : 100 ≤ coefficientBound / 10 := by decide
    have hbelow : m / powerOfTen k * powerOfTen k ≤ m := Nat.div_mul_le_self _ _
    have habove : m < (m / powerOfTen k + 1) * powerOfTen k := by
      rw [Nat.mul_comm]
      exact Nat.lt_mul_div_succ m (powerOfTen_pos k)
    have hnear : ∀ c, m / powerOfTen k ≤ 2 * c - 1 → c ≤ 2 * (m / powerOfTen k) →
        c * powerOfTen k ≤ 2 * m ∧ m ≤ 2 * (c * powerOfTen k) := by
      intro c hlow hhigh
      have := Nat.mul_le_mul_right (powerOfTen k) hhigh
      have := Nat.mul_le_mul_right (powerOfTen k) (show m / powerOfTen k + 1 ≤ 2 * c by omega)
      rw [Nat.mul_assoc] at *
      omega
    have hle := roundHalfEven_le m (powerOfTen k)
    have hge := div_le_roundHalfEven m (powerOfTen k)
    split at h
    · obtain ⟨hcoefficient, hscale⟩ := ofParts?_eq_some h
      refine ⟨k, by omega, ?_⟩
      rw [hcoefficient]
      exact hnear _ (by omega) (by omega)
    · split at h
      · cases h
      · obtain ⟨hcoefficient, hscale⟩ := ofParts?_eq_some h
        have hle' := roundHalfEven_le (roundHalfEven m (powerOfTen k)) 10
        have hge' := div_le_roundHalfEven (roundHalfEven m (powerOfTen k)) 10
        refine ⟨k + 1, by omega, ?_⟩
        rw [hcoefficient, powerOfTen_succ, Nat.mul_comm (powerOfTen k), ← Nat.mul_assoc]
        exact hnear _ (by omega) (by omega)

/-! ## Sums, differences and products -/

/-- The coefficients over the larger of two denominators are as large as the numbers
    are. -/
theorem Within.natAbs_le (h : a.Within n) {s : Nat} (hs : a.scale ≤ s) :
    (a.signed * powerOfTen (s - a.scale)).natAbs ≤ n * powerOfTen s := by
  rw [Int.natAbs_mul, natAbs_signed, Int.natAbs_natCast]
  calc a.coefficient * powerOfTen (s - a.scale)
      ≤ n * powerOfTen a.scale * powerOfTen (s - a.scale) := Nat.mul_le_mul_right _ h
    _ = n * powerOfTen s := by
      rw [Nat.mul_assoc, ← powerOfTen_add]
      congr 2
      omega

theorem combine_within {op : Int → Int → Int} (hop : ∀ x y, (op x y).natAbs ≤ x.natAbs + y.natAbs)
    (ha : a.Within m) (hb : b.Within n) (h : m + n < coefficientBound) :
    ∃ d, combine op a b = some d ∧ d.Within (m + n) := by
  refine fit_within _ ?_ h
  rw [Nat.add_mul]
  exact Nat.le_trans (hop _ _) (Nat.add_le_add (ha.natAbs_le (Nat.le_max_left _ _))
    (hb.natAbs_le (Nat.le_max_right _ _)))

theorem add_within (ha : a.Within m) (hb : b.Within n) (h : m + n < coefficientBound) :
    ∃ d, a.add b = .ok d ∧ d.Within (m + n) := by
  obtain ⟨d, hd, hwithin⟩ := combine_within Int.natAbs_add_le ha hb h
  unfold add
  split
  · exact ⟨b, rfl, hb.mono (Nat.le_add_left _ _)⟩
  · split
    · exact ⟨a, rfl, ha.mono (Nat.le_add_right _ _)⟩
    · rw [hd]
      exact ⟨d, rfl, hwithin⟩

theorem sub_within (ha : a.Within m) (hb : b.Within n) (h : m + n < coefficientBound) :
    ∃ d, a.sub b = .ok d ∧ d.Within (m + n) := by
  obtain ⟨d, hd, hwithin⟩ := combine_within Int.natAbs_sub_le ha hb h
  unfold sub
  split
  · exact ⟨b.neg, rfl, hb.neg.mono (Nat.le_add_left _ _)⟩
  · split
    · exact ⟨a, rfl, ha.mono (Nat.le_add_right _ _)⟩
    · rw [hd]
      exact ⟨d, rfl, hwithin⟩

theorem mul_within (ha : a.Within m) (hb : b.Within n) (h : m * n < coefficientBound) :
    ∃ d, a.mul b = .ok d ∧ d.Within (m * n) := by
  have hm : a.coefficient * b.coefficient ≤ m * n * powerOfTen (a.scale + b.scale) :=
    calc a.coefficient * b.coefficient
        ≤ m * powerOfTen a.scale * (n * powerOfTen b.scale) := Nat.mul_le_mul ha hb
      _ = m * n * powerOfTen (a.scale + b.scale) := by
        rw [powerOfTen_add, Nat.mul_mul_mul_comm]
  obtain ⟨d, hd, hwithin⟩ := fit_within (a.negative != b.negative) hm h
  unfold mul
  split
  · exact ⟨zero, rfl, within_zero _⟩
  · rw [hd]
    exact ⟨d, rfl, hwithin⟩

/-! ## Rounded sums and products -/

/-- A product with at most 28 fraction digits is not rounded to more than twice as
    much. -/
theorem mul_near (hs : a.scale + b.scale ≤ maxScale) (h : a.mul b = .ok d) :
    d.coefficient * powerOfTen (a.scale + b.scale) ≤
      2 * (a.coefficient * b.coefficient) * powerOfTen d.scale := by
  unfold mul at h
  split at h
  · cases h
    rw [show zero.coefficient = 0 from rfl, Nat.zero_mul]
    exact Nat.zero_le _
  · split at h
    · next hc =>
      cases h
      obtain ⟨k, hk, hle, -⟩ := fit_near hs hc
      rw [← hk, powerOfTen_add, Nat.mul_left_comm, Nat.mul_comm]
      exact Nat.mul_le_mul_right _ hle
    · cases h

/-- A number below zero that is taken off one that is not leaves at least half as much,
    however this is rounded. -/
theorem sub_near (ha : a.isBelowZero = false) (hb : b.isBelowZero = true) (h : a.sub b = .ok d) :
    b.coefficient * powerOfTen d.scale ≤ 2 * d.coefficient * powerOfTen b.scale := by
  have ha : ¬ a.signed < 0 := fun hlt => by simp [(isBelowZero_iff a).2 hlt] at ha
  have hb := (isBelowZero_iff b).1 hb
  have hcoefficient : (b.coefficient : Int) = -b.signed := by
    rw [← natAbs_signed]
    omega
  unfold sub at h
  split at h
  · cases h
    rw [neg_coefficient, neg_scale]
    exact Nat.mul_le_mul_right _ (by omega)
  · rw [if_neg (by rw [isZero_iff]; omega)] at h
    cases hc : combine (· - ·) a b with
    | none =>
      rw [hc] at h
      cases h
    | some c =>
      rw [hc] at h
      cases h
      have hmax : max a.scale b.scale ≤ maxScale := Nat.max_le.2 ⟨a.scale_le, b.scale_le⟩
      obtain ⟨k, hk, -, hge⟩ := fit_near hmax hc
      have hexact : b.coefficient * powerOfTen (max a.scale b.scale - b.scale) ≤
          2 * (d.coefficient * powerOfTen k) := by
        refine Nat.le_trans ?_ hge
        have hpos : 0 ≤ a.signed * powerOfTen (max a.scale b.scale - a.scale) :=
          Int.mul_nonneg (by omega) (Int.natCast_nonneg _)
        rw [← Int.ofNat_le, Int.natCast_mul, hcoefficient, Int.neg_mul]
        dsimp only
        omega
      refine Nat.le_of_mul_le_mul_right ?_ (powerOfTen_pos k)
      calc b.coefficient * powerOfTen d.scale * powerOfTen k
          = b.coefficient * powerOfTen (max a.scale b.scale - b.scale) * powerOfTen b.scale := by
            rw [Nat.mul_assoc, ← powerOfTen_add, hk, Nat.mul_assoc,
              powerOfTen_sub_mul (Nat.le_max_right _ _)]
        _ ≤ 2 * (d.coefficient * powerOfTen k) * powerOfTen b.scale := Nat.mul_le_mul_right _ hexact
        _ = 2 * d.coefficient * powerOfTen b.scale * powerOfTen k := by
            rw [← Nat.mul_assoc, Nat.mul_right_comm]

end Matchbook.Decimal
