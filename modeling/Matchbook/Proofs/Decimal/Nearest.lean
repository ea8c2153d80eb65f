/-
  Rounding, as a relation between numbers.

  * `IsNearest x c`: the whole number `c` is the nearest to `x`, and the even one of two;
  * `Nears x y`: `y` is `x` with as many fraction digits as there is room for, the last one
    rounded; `Rounds x y` is the same for numbers of either sign;
  * `Rounds.mono`: rounding keeps the order, also where the number of fraction digits
    changes, and so a number has one rounded value;
  * `rounds_value`: decimals are not rounded, so rounding does not go past a decimal
    (`Rounds.le_value`, `Rounds.value_le`);
  * `Rounds.le_add`: how much a number can grow.
-/
import Mathlib.Tactic.Ring
import Matchbook.Proofs.Decimal.Value

namespace Matchbook.Decimal

variable {x x' y y' : ℚ} {c c' s s' : Nat} {d : Decimal}

/-! ## Whole numbers -/

/-- No whole number is nearer to `x`, and `c` is even if another one is as near. -/
structure IsNearest (x : ℚ) (c : Nat) : Prop where
  le : (c : ℚ) ≤ x + 1 / 2
  ge : x ≤ c + 1 / 2
  even : (c : ℚ) = x + 1 / 2 ∨ x = c + 1 / 2 → Even c

theorem isNearest_natCast (c : Nat) : IsNearest c c where
  le := by linarith
  ge := by linarith
  even h := by rcases h with h | h <;> linarith

/-- Rounding to whole numbers keeps the order. -/
theorem IsNearest.mono (h : IsNearest x c) (h' : IsNearest x' c') (hle : x ≤ x') : c ≤ c' := by
  by_contra hlt
  have hlt : c' + 1 ≤ c := Nat.lt_of_not_le hlt
  have hcast : (c' : ℚ) + 1 ≤ c := by exact_mod_cast hlt
  have := h.le
  have := h'.ge
  -- both are half-way between the two whole numbers, of which one is odd
  have heven : Even c := h.even (Or.inl (by linarith))
  have heven' : Even c' := h'.even (Or.inr (by linarith))
  have hnext : c = c' + 1 := by
    have : (c : ℚ) = (c' + 1 : Nat) := by
      push_cast
      linarith
    exact_mod_cast this
  rw [hnext, Nat.even_add_one] at heven
  exact heven heven'

/-- A number between two whole ones goes to the one that it is nearer to. -/
theorem isNearest_of_fraction {f : ℚ} (q : Nat) {up : Bool} (h0 : 0 ≤ f) (h1 : f ≤ 1)
    (hup : up = true → 1 / 2 ≤ f ∧ (f = 1 / 2 → ¬ Even q))
    (hdown : up = false → f ≤ 1 / 2 ∧ (f = 1 / 2 → Even q)) :
    IsNearest (q + f) (if up then q + 1 else q) := by
  cases up with
  | true =>
    obtain ⟨hle, hodd⟩ := hup rfl
    rw [if_pos rfl]
    constructor
    case le =>
      push_cast
      linarith
    case ge =>
      push_cast
      linarith
    case even =>
      push_cast
      rintro (h | h)
      · exact Nat.even_add_one.2 (hodd (by linarith))
      · linarith
  | false =>
    obtain ⟨hle, heven⟩ := hdown rfl
    rw [if_neg Bool.false_ne_true]
    constructor
    case le => linarith
    case ge => linarith
    case even =>
      rintro (h | h)
      · linarith
      · exact heven (by linarith)

/-- A remainder is rounded by comparing it with half of the divisor. -/
theorem isNearest_add_div (q : Nat) {r m : Nat} (hr : r < m) :
    IsNearest ((q : ℚ) + r / m)
      (if decide (m < 2 * r) || (2 * r == m && q % 2 == 1) then q + 1 else q) := by
  have hpos : (0 : ℚ) < m := by exact_mod_cast Nat.lt_of_le_of_lt (Nat.zero_le _) hr
  have hbelow : (r : ℚ) / m < 1 / 2 ↔ 2 * r < m := by
    rw [div_lt_div_iff₀ hpos two_pos]
    norm_cast
    omega
  have habove : 1 / 2 < (r : ℚ) / m ↔ m < 2 * r := by
    rw [div_lt_div_iff₀ two_pos hpos]
    norm_cast
    omega
  refine isNearest_of_fraction q (by positivity) ((div_le_one hpos).2 (by exact_mod_cast hr.le))
    (fun hup => ?_) fun hdown => ?_
  · simp only [Bool.or_eq_true, Bool.and_eq_true, decide_eq_true_eq, beq_iff_eq] at hup
    refine ⟨not_lt.1 fun h => ?_, fun h => ?_⟩
    · have := hbelow.1 h
      omega
    · have hgt : ¬ m < 2 * r := fun hgt => (habove.2 hgt).ne' h
      rw [Nat.not_even_iff]
      omega
  · simp only [Bool.or_eq_false_iff, Bool.and_eq_false_iff, decide_eq_false_iff_not,
      beq_eq_false_iff_ne] at hdown
    refine ⟨not_lt.1 fun h => hdown.1 (habove.1 h), fun h => ?_⟩
    have hlt : ¬ 2 * r < m := fun hlt => (hbelow.2 hlt).ne h
    rw [Nat.even_iff]
    omega

theorem isNearest_roundHalfEven (n : Nat) {m : Nat} (hm : 0 < m) :
    IsNearest ((n : ℚ) / m) (roundHalfEven n m) := by
  have hpos : (0 : ℚ) < m := by exact_mod_cast hm
  have hx : (n : ℚ) / m = (n / m : Nat) + (n % m : Nat) / m := by
    rw [← mul_div_cancel_right₀ ((n / m : Nat) : ℚ) hpos.ne', ← add_div, cast_div_add_mod]
  have hround : roundHalfEven n m = if decide (m < 2 * (n % m)) ||
      (2 * (n % m) == m && n / m % 2 == 1) then n / m + 1 else n / m := by
    grind [roundHalfEven]
  rw [hx, hround]
  exact isNearest_add_div _ (Nat.mod_lt n hm)

/-! ## Fraction digits -/

/-- A coefficient to which rounding has added a digit too many loses its last one. -/
def carry (c : Nat) : Nat := if c < coefficientBound then c else roundHalfEven c 10 * 10

theorem carry_bound : carry coefficientBound = 79228162514264337593543950340 := by decide

theorem carry_eq (hc : c < coefficientBound) : carry c = c := if_pos hc

/-- Room for so many fraction digits, and for no more. -/
structure Places (x : ℚ) (s : Nat) : Prop where
  le : s ≤ maxScale
  fits : x * 10 ^ s < coefficientBound
  full : s = maxScale ∨ coefficientBound ≤ x * 10 ^ (s + 1)

/-- `y` is `x` with as many fraction digits as there is room for, the last one rounded. -/
def Nears (x y : ℚ) : Prop :=
  ∃ s c : Nat, Places x s ∧ IsNearest (x * 10 ^ s) c ∧ y = carry c / 10 ^ s

/-- What is rounded is at most the bound. -/
theorem Places.le_bound (h : Places x s) (hc : IsNearest (x * 10 ^ s) c) :
    c ≤ coefficientBound := by
  have hle := hc.le
  have hfits := h.fits
  have hlt : (c : ℚ) < coefficientBound + 1 := by linarith
  exact Nat.lt_succ_iff.1 (by exact_mod_cast hlt)

theorem carry_mono (h : c ≤ c') (hc' : c' ≤ coefficientBound) : carry c ≤ carry c' := by
  rcases Nat.lt_or_eq_of_le hc' with hlt | rfl
  · rwa [carry_eq hlt, carry_eq (Nat.lt_of_le_of_lt h hlt)]
  · rcases Nat.lt_or_eq_of_le h with hlt | rfl
    · have hbound : coefficientBound ≤ 79228162514264337593543950340 := by decide
      rw [carry_eq hlt, carry_bound]
      omega
    · exact Nat.le_refl _

theorem Places.mono (h : Places x s) (h' : Places x' s') (hle : x ≤ x') : s' ≤ s := by
  by_contra hlt
  have hlt : s + 1 ≤ s' := Nat.lt_of_not_le hlt
  rcases h.full with hs | hlong
  · have := h'.le
    omega
  · have hx : 0 < x := by
      by_contra hneg
      have : x * 10 ^ (s + 1) ≤ 0 := mul_nonpos_of_nonpos_of_nonneg (not_lt.1 hneg) (by positivity)
      have : (0 : ℚ) < coefficientBound := by norm_num
      linarith
    have hpow : x * 10 ^ (s + 1) ≤ x' * 10 ^ s' :=
      mul_le_mul hle (pow_le_pow_right₀ (by norm_num) hlt) (by positivity) (by linarith)
    have := h'.fits
    linarith

/-- **Rounding keeps the order.** -/
theorem Nears.mono (h : Nears x y) (h' : Nears x' y') (hle : x ≤ x') : y ≤ y' := by
  obtain ⟨s, c, hs, hc, rfl⟩ := h
  obtain ⟨s', c', hs', hc', rfl⟩ := h'
  have hscale := hs.mono hs' hle
  rcases Nat.eq_or_lt_of_le hscale with rfl | hlt
  · -- as many fraction digits
    have hcc' : c ≤ c' := hc.mono hc' (mul_le_mul_of_nonneg_right hle (by positivity))
    have hcarry : (carry c : ℚ) ≤ carry c' := by exact_mod_cast carry_mono hcc' (hs'.le_bound hc')
    exact div_le_div_of_nonneg_right hcarry (by positivity)
  · -- the larger number has fewer: its digits fill the coefficient
    have hlong : (coefficientBound : ℚ) ≤ x' * 10 ^ (s' + 1) := by
      refine hs'.full.resolve_left fun hmax => ?_
      have := hs.le
      omega
    have hlow : 7922816251426433759354395034 ≤ c' := by
      have hge := hc'.ge
      rw [pow_succ, ← mul_assoc] at hlong
      have hcast : ((7922816251426433759354395033 : Nat) : ℚ) < c' := by
        push_cast at hlong ⊢
        linarith
      exact Nat.succ_le_of_lt (by exact_mod_cast hcast)
    have hhigh : carry c ≤ 79228162514264337593543950340 := by
      rw [← carry_bound]
      exact carry_mono (hs.le_bound hc) (Nat.le_refl _)
    have hstay : c' ≤ carry c' := by
      rcases Nat.lt_or_eq_of_le (hs'.le_bound hc') with hlt | rfl
      · exact (carry_eq hlt).ge
      · rw [carry_bound]
        decide
    have hten : carry c ≤ carry c' * 10 := by omega
    have hcast : (carry c : ℚ) ≤ carry c' * 10 := by exact_mod_cast hten
    rw [div_le_div_iff₀ (by positivity) (by positivity)]
    calc (carry c : ℚ) * 10 ^ s' ≤ carry c' * 10 * 10 ^ s' :=
          mul_le_mul_of_nonneg_right hcast (by positivity)
      _ = carry c' * 10 ^ (s' + 1) := by ring
      _ ≤ carry c' * 10 ^ s :=
          mul_le_mul_of_nonneg_left (pow_le_pow_right₀ (by norm_num) hlt) (by positivity)

/-- What has few enough digits is not rounded. -/
theorem nears_of_digits (hc : c < coefficientBound) (hs : s ≤ maxScale) :
    Nears ((c : ℚ) / 10 ^ s) (c / 10 ^ s) := by
  classical
  have hpos : (0 : ℚ) < 10 ^ s := by positivity
  have hcoefficient : ∀ k, s ≤ k → (c : ℚ) / 10 ^ s * 10 ^ k = (c * 10 ^ (k - s) : Nat) := by
    intro k hk
    rw [← pow_sub_mul_pow 10 hk, div_mul_eq_mul_div, ← mul_assoc, mul_div_cancel_right₀ _ hpos.ne']
    push_cast
    ring
  let P (k : Nat) : Prop := (c : ℚ) / 10 ^ s * 10 ^ k < coefficientBound
  have hP : P s := by
    show (c : ℚ) / 10 ^ s * 10 ^ s < coefficientBound
    rw [div_mul_cancel₀ _ hpos.ne']
    exact_mod_cast hc
  -- with all the digits that there is room for
  set k := Nat.findGreatest P maxScale with hk
  have hle : s ≤ k := Nat.le_findGreatest hs hP
  have hfits : P k := Nat.findGreatest_spec hs hP
  have hlt : c * 10 ^ (k - s) < coefficientBound := by
    have h : (c : ℚ) / 10 ^ s * 10 ^ k < coefficientBound := hfits
    rw [hcoefficient k hle] at h
    exact_mod_cast h
  refine ⟨k, c * 10 ^ (k - s), ⟨Nat.findGreatest_le maxScale, hfits, ?_⟩, ?_, ?_⟩
  · rcases Nat.lt_or_eq_of_le (Nat.findGreatest_le (P := P) maxScale) with hless | hmax
    · exact Or.inr (not_lt.1 (Nat.findGreatest_is_greatest (Nat.lt_succ_self _) hless))
    · exact Or.inl hmax
  · rw [hcoefficient k hle]
    exact isNearest_natCast _
  · rw [carry_eq hlt, ← hcoefficient k hle, mul_div_cancel_right₀ _ (by positivity)]

theorem Nears.unique (h : Nears x y) (h' : Nears x y') : y = y' :=
  le_antisymm (h.mono h' le_rfl) (h'.mono h le_rfl)

theorem Nears.eq_zero (h : Nears 0 y) : y = 0 := by
  have hzero := nears_of_digits (c := 0) (s := 0) (by decide) (by decide)
  simp only [Nat.cast_zero, zero_div] at hzero
  exact h.unique hzero

theorem Nears.nonneg (h : Nears x y) : 0 ≤ y := by
  obtain ⟨s, c, -, -, rfl⟩ := h
  positivity

/-- How much is added at most: half of the last fraction digit there is, or a small part of
    the number. -/
theorem Nears.le_add (hx : 0 ≤ x) (h : Nears x y) :
    y ≤ x + (1 / (2 * 10 ^ maxScale) + 10 * x / coefficientBound) := by
  obtain ⟨s, c, hs, hc, rfl⟩ := h
  have hpos : (0 : ℚ) < 10 ^ s := by positivity
  have hbound : (0 : ℚ) < coefficientBound := by norm_num
  have hle := hc.le
  rcases Nat.lt_or_eq_of_le (hs.le_bound hc) with hlt | rfl
  · -- half of the last digit is added at most
    rw [carry_eq hlt, div_le_iff₀ hpos, add_mul]
    refine le_trans hle (add_le_add le_rfl ?_)
    rcases hs.full with rfl | hlong
    · have hpart : (0 : ℚ) ≤ 10 * x / coefficientBound * 10 ^ maxScale := by positivity
      rw [add_mul, one_div_mul_eq_div, div_mul_cancel_right₀ hpos.ne']
      linarith
    · have hpart : 1 ≤ 10 * x / coefficientBound * 10 ^ s := by
        rw [div_mul_eq_mul_div, one_le_div hbound]
        calc (coefficientBound : ℚ) ≤ x * 10 ^ (s + 1) := hlong
          _ = 10 * x * 10 ^ s := by ring
      have hhalf : (0 : ℚ) ≤ 1 / (2 * 10 ^ maxScale) * 10 ^ s := by positivity
      rw [add_mul]
      linarith
  · -- rounding has reached the bound, and a digit is lost
    rw [carry_bound, div_le_iff₀ hpos, add_mul, add_mul]
    have hhalf : (0 : ℚ) ≤ 1 / (2 * 10 ^ maxScale) * 10 ^ s := by positivity
    have hpart : 5 ≤ 10 * x / coefficientBound * 10 ^ s := by
      rw [div_mul_eq_mul_div, le_div_iff₀ hbound]
      push_cast at hle ⊢
      linarith
    push_cast at hle ⊢
    linarith

/-! ## Numbers of either sign -/

/-- `y` is `x` rounded: the number of digits is that of the number without its sign. -/
def Rounds (x y : ℚ) : Prop := 0 ≤ x ∧ Nears x y ∨ x ≤ 0 ∧ Nears (-x) (-y)

theorem Rounds.neg (h : Rounds x y) : Rounds (-x) (-y) := by
  rcases h with ⟨hx, h⟩ | ⟨hx, h⟩
  · exact Or.inr ⟨neg_nonpos.2 hx, by rwa [neg_neg, neg_neg]⟩
  · exact Or.inl ⟨neg_nonneg.2 hx, h⟩

theorem Nears.rounds_withSign (hx : 0 ≤ x) (h : Nears x y) (negative : Bool) :
    Rounds (withSign negative x) (withSign negative y) := by
  have hrounds : Rounds x y := Or.inl ⟨hx, h⟩
  cases negative with
  | false => exact hrounds
  | true => exact hrounds.neg

/-- **Rounding keeps the order.** -/
theorem Rounds.mono (h : Rounds x y) (h' : Rounds x' y') (hle : x ≤ x') : y ≤ y' := by
  rcases h with ⟨hx, h⟩ | ⟨hx, h⟩ <;> rcases h' with ⟨hx', h'⟩ | ⟨hx', h'⟩
  · exact h.mono h' hle
  · -- both are zero
    obtain rfl : x = 0 := by linarith
    obtain rfl : x' = 0 := by linarith
    rw [neg_zero] at h'
    have := h.eq_zero
    have := h'.eq_zero
    linarith
  · have := h.nonneg
    have := h'.nonneg
    linarith
  · have := h'.mono h (neg_le_neg hle)
    linarith

/-- A number has one rounded value. -/
theorem Rounds.unique (h : Rounds x y) (h' : Rounds x y') : y = y' :=
  le_antisymm (h.mono h' le_rfl) (h'.mono h le_rfl)

/-- **Decimals are not rounded.** -/
theorem rounds_value (d : Decimal) : Rounds d.value d.value := by
  rw [value_eq_withSign]
  exact (nears_of_digits d.coefficient_lt d.scale_le).rounds_withSign (by positivity) _

theorem rounds_natCast (hc : c < coefficientBound) : Rounds c c := by
  have h := rounds_value (ofNat c hc)
  rwa [show (ofNat c hc).value = c by simp [value_eq_withSign, withSign, ofNat]] at h

/-- Rounding does not go past a decimal. -/
theorem Rounds.le_value (h : Rounds x y) (hle : x ≤ d.value) : y ≤ d.value :=
  h.mono (rounds_value d) hle

theorem Rounds.value_le (h : Rounds x y) (hle : d.value ≤ x) : d.value ≤ y :=
  (rounds_value d).mono h hle

theorem Rounds.nonneg (h : Rounds x y) (hx : 0 ≤ x) : 0 ≤ y := by
  have hle := h.value_le (d := zero) (by rwa [value_zero])
  rwa [value_zero] at hle

/-- How much a number grows at most. -/
theorem Rounds.le_add (h : Rounds x y) (hx : 0 ≤ x) :
    y ≤ x + (1 / (2 * 10 ^ maxScale) + 10 * x / coefficientBound) := by
  rcases h with ⟨-, h⟩ | ⟨hx', h⟩
  · exact h.le_add hx
  · obtain rfl := le_antisymm hx' hx
    rw [neg_zero] at h
    have := h.eq_zero
    have : (0 : ℚ) ≤ 1 / (2 * 10 ^ maxScale) := by positivity
    simp only [mul_zero, zero_div, add_zero, zero_add]
    linarith

end Matchbook.Decimal
