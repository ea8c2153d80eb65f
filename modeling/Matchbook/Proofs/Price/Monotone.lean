/-
  Prices along a ramp, rounded as they are.

  * `Along a b elapsed duration x`: `x` is the price part of the way from `a` to `b`, each of
    the four operations being rounded;
  * `Along.mono`: later is higher on the way up, because every rounding keeps the order;
  * `Along.share_le`: rounding does not take the price past its end.  A rise that is rounded
    up is a long way up, and then the last millisecond of any window is worth more than
    what rounding adds;
  * `OnRamp r t x`: the price at `t` is `x`, before the window, after it or along it;
  * `priceAt_monotone`: prices stay between the ends of a ramp and never turn back.
-/
import Matchbook.Proofs.Decimal.Operations
import Matchbook.Proofs.Price.Crossing

namespace Matchbook

namespace Decimal

variable {a b : Decimal} {x y : ℚ}

theorem exists_value_eq (d : Decimal) : ∃ n : Int, d.value = n / 10 ^ maxScale :=
  ⟨_, (value_mul_pow d d.scale_le).symm⟩

/-- Differences of up to seven have few enough digits. -/
theorem Rounds.eq_of_sub_le (hle : a.value ≤ b.value) (hseven : b.value - a.value ≤ 7)
    (h : Rounds (b.value - a.value) y) : y = b.value - a.value := by
  obtain ⟨m, hm⟩ := a.exists_value_eq
  obtain ⟨n, hn⟩ := b.exists_value_eq
  have hpos : (0 : ℚ) < 10 ^ maxScale := by positivity
  have hsub : b.value - a.value = ((n - m : Int) : ℚ) / 10 ^ maxScale := by
    rw [hm, hn, Int.cast_sub, sub_div]
  have hnonneg : 0 ≤ n - m := by
    have := sub_nonneg.2 hle
    rw [hsub, le_div_iff₀ hpos, zero_mul] at this
    exact_mod_cast this
  obtain ⟨c, hc⟩ := Int.eq_ofNat_of_zero_le hnonneg
  rw [hsub, hc, Int.cast_natCast] at h hseven ⊢
  have hfits : c < coefficientBound := by
    rw [div_le_iff₀ hpos] at hseven
    have : c ≤ 7 * 10 ^ maxScale := by exact_mod_cast hseven
    exact Nat.lt_of_le_of_lt this (by decide)
  exact h.unique (Or.inl ⟨by positivity, nears_of_digits hfits le_rfl⟩)

/-- What is not below one grows by a small part of itself at most. -/
theorem Rounds.le_mul (h : Rounds x y) (hx : 1 ≤ x) : y ≤ x * (1 + 1 / 10 ^ 27) := by
  have hle := h.le_add (by linarith)
  have hbound : (10 : ℚ) * x / coefficientBound ≤ x * (2 / 10 ^ maxScale) := by
    rw [mul_comm, mul_div_assoc]
    exact mul_le_mul_of_nonneg_left (by norm_num) (by linarith)
  norm_num at hle hbound ⊢
  linarith

end Decimal

namespace PriceRamp

open Decimal (Rounds)

/-! ## Part of the way -/

/-- The price part of the way from `a` to `b`: a share of the rise is added, with every
    operation rounded. -/
def Along (a b : Decimal) (elapsed duration : Nat) (x : ℚ) : Prop :=
  ∃ (rise : Decimal) (product share : ℚ), Rounds (b.value - a.value) rise.value ∧
    Rounds (rise.value * elapsed) product ∧ Rounds (product / duration) share ∧
      Rounds (a.value + share) x

namespace Along

variable {a b : Decimal} {elapsed elapsed' duration : Nat} {x x' : ℚ}

/-- With the opposite signs. -/
theorem mirror (h : Along a b elapsed duration x) : Along a.neg b.neg elapsed duration (-x) := by
  obtain ⟨rise, product, share, hrise, hproduct, hshare, hx⟩ := h
  refine ⟨rise.neg, -product, -share, ?_, ?_, ?_, ?_⟩
  · rw [Decimal.value_neg, Decimal.value_neg, Decimal.value_neg, neg_sub_neg, ← neg_sub]
    exact hrise.neg
  · rw [Decimal.value_neg, neg_mul]
    exact hproduct.neg
  · rw [neg_div]
    exact hshare.neg
  · rw [Decimal.value_neg, ← neg_add]
    exact hx.neg

/-- **Later is higher** on the way up. -/
theorem mono (hle : a.value ≤ b.value) (h : Along a b elapsed duration x)
    (h' : Along a b elapsed' duration x') (htime : elapsed ≤ elapsed') : x ≤ x' := by
  obtain ⟨rise, product, share, hrise, hproduct, hshare, hx⟩ := h
  obtain ⟨rise', product', share', hrise', hproduct', hshare', hx'⟩ := h'
  rw [← hrise.unique hrise'] at hproduct'
  have hnonneg : 0 ≤ rise.value := hrise.nonneg (sub_nonneg.2 hle)
  have hcast : (elapsed : ℚ) ≤ elapsed' := by exact_mod_cast htime
  have hproducts : product ≤ product' :=
    hproduct.mono hproduct' (mul_le_mul_of_nonneg_left hcast hnonneg)
  have hshares : share ≤ share' :=
    hshare.mono hshare' (div_le_div_of_nonneg_right hproducts (by positivity))
  exact hx.mono hx' (add_le_add_right hshares _)

/-- A share of a rise is not more than the rise. -/
theorem share_le_rise {rise : Decimal} {product share : ℚ} (hnonneg : 0 ≤ rise.value)
    (htime : elapsed < duration) (hduration : duration < UInt64.size)
    (hproduct : Rounds (rise.value * elapsed) product)
    (hshare : Rounds (product / duration) share) : share ≤ rise.value := by
  have hcast : (elapsed : ℚ) + 1 ≤ duration := by exact_mod_cast htime
  have hlong : (elapsed : ℚ) ≤ (UInt64.size : Nat) := by exact_mod_cast (by omega)
  have hnonneg' : 0 ≤ rise.value * elapsed := by positivity
  refine hshare.le_value ((div_le_iff₀ (by linarith [elapsed.cast_nonneg (α := ℚ)])).2 ?_)
  rcases hnonneg.eq_or_lt with hzero | hpos
  · rw [← hzero, zero_mul] at hproduct ⊢
    have hzero' := Decimal.rounds_value .zero
    rw [Decimal.value_zero] at hzero'
    exact (hproduct.unique hzero').le
  · -- what rounding adds is worth less than a millisecond
    have hleast : 1 / 10 ^ Decimal.maxScale ≤ rise.value := by
      obtain ⟨n, hn⟩ := rise.exists_value_eq
      rw [hn] at hpos ⊢
      have hn : 0 < n := by
        rw [lt_div_iff₀ (by positivity), zero_mul] at hpos
        exact_mod_cast hpos
      exact div_le_div_of_nonneg_right (by exact_mod_cast hn) (by positivity)
    have hpart : 10 * (rise.value * elapsed) / Decimal.coefficientBound ≤ rise.value / 2 := by
      rw [div_le_div_iff₀ (by norm_num) (by norm_num)]
      have := mul_le_mul_of_nonneg_left hlong hnonneg
      norm_num at this ⊢
      linarith
    have hgrown := hproduct.le_add hnonneg'
    have hhalf : 1 / (2 * 10 ^ Decimal.maxScale) ≤ rise.value / 2 := by
      rw [mul_comm, ← div_div]
      exact div_le_div_of_nonneg_right hleast (by norm_num)
    calc product ≤ rise.value * elapsed + (rise.value / 2 + rise.value / 2) := by linarith
      _ = rise.value * (elapsed + 1) := by ring
      _ ≤ rise.value * duration := mul_le_mul_of_nonneg_left hcast hnonneg

/-- The share is not more than the way from `a` to `b`, also where the rise is rounded up. -/
theorem share_le {rise : Decimal} {product share : ℚ} (hle : a.value ≤ b.value)
    (hpositive : 0 < elapsed) (htime : elapsed < duration) (hduration : duration < UInt64.size)
    (hrise : Rounds (b.value - a.value) rise.value)
    (hproduct : Rounds (rise.value * elapsed) product)
    (hshare : Rounds (product / duration) share) : share ≤ b.value - a.value := by
  have hnonneg : 0 ≤ rise.value := hrise.nonneg (sub_nonneg.2 hle)
  rcases le_or_gt rise.value (b.value - a.value) with hdown | hup
  · exact (share_le_rise hnonneg htime hduration hproduct hshare).trans hdown
  have hseven : 7 < b.value - a.value := by
    by_contra hseven
    exact hup.ne' (hrise.eq_of_sub_le hle (not_lt.1 hseven))
  generalize b.value - a.value = way at *
  have hway : 0 ≤ way := by linarith
  have hone : (1 : ℚ) ≤ elapsed := by exact_mod_cast hpositive
  have hquotient : product / duration ≤ way * (1 - 1 / 2 ^ 65) := by
    have hlast : (elapsed : ℚ) ≤ duration * (1 - 1 / 2 ^ 64) := by
      have hcast : (elapsed : ℚ) + 1 ≤ duration := by exact_mod_cast htime
      have hlong : (duration : ℚ) ≤ 2 ^ 64 := by exact_mod_cast hduration.le
      linarith
    have hgrown := hproduct.le_mul (one_le_mul_of_one_le_of_one_le (by linarith) hone)
    rw [div_le_iff₀ (by exact_mod_cast Nat.zero_lt_of_lt htime)]
    calc product ≤ rise.value * elapsed * (1 + 1 / 10 ^ 27) := hgrown
      _ ≤ way * (1 + 1 / 10 ^ 27) * (duration * (1 - 1 / 2 ^ 64)) * (1 + 1 / 10 ^ 27) := by
        have hrise := hrise.le_mul (by linarith)
        gcongr
      _ = way * ((1 + 1 / 10 ^ 27) * (1 - 1 / 2 ^ 64) * (1 + 1 / 10 ^ 27)) * duration := by ring
      _ ≤ way * (1 - 1 / 2 ^ 65) * duration := by
        gcongr
        norm_num
  have hgrown := hshare.le_add (div_nonneg (hproduct.nonneg (by positivity)) (by positivity))
  generalize product / (duration : ℚ) = quotient at *
  norm_num at hgrown hquotient
  linarith

/-- **The end is not passed** on the way up. -/
theorem between (hle : a.value ≤ b.value) (hpositive : 0 < elapsed) (htime : elapsed < duration)
    (hduration : duration < UInt64.size) (h : Along a b elapsed duration x) :
    a.value ≤ x ∧ x ≤ b.value := by
  obtain ⟨rise, product, share, hrise, hproduct, hshare, hx⟩ := h
  have hnonneg : 0 ≤ share := by
    have hproduct := hproduct.nonneg (mul_nonneg (hrise.nonneg (sub_nonneg.2 hle)) (by positivity))
    exact hshare.nonneg (by positivity)
  have hshare := share_le hle hpositive htime hduration hrise hproduct hshare
  exact ⟨hx.value_le (by linarith), hx.le_value (by linarith)⟩

end Along

/-! ## The whole ramp -/

/-- The price at `t` is `x`: that of an end outside of the window, else one along the way. -/
inductive OnRamp (r : PriceRamp) (t : UInt64) : ℚ → Prop
  | before (h : t ≤ r.startTime ∨ r.endTime ≤ r.startTime) : OnRamp r t r.startPrice.value
  | after (hwindow : r.startTime < r.endTime) (h : r.endTime ≤ t) : OnRamp r t r.endPrice.value
  | inside {x : ℚ} (hstart : r.startTime < t) (hend : t < r.endTime)
    (h : Along r.startPrice r.endPrice (t - r.startTime).toNat (r.endTime - r.startTime).toNat x) :
    OnRamp r t x

/-- The ramp with the opposite prices. -/
def mirror (r : PriceRamp) : PriceRamp :=
  { r with startPrice := r.startPrice.neg, endPrice := r.endPrice.neg }

variable {r : PriceRamp} {t t₁ t₂ : UInt64} {x x₁ x₂ : ℚ} {p p₁ p₂ : Decimal}

theorem onRamp_of_priceAt (h : r.priceAt t = .ok p) : OnRamp r t p.value := by
  unfold priceAt at h
  split at h
  · next hbefore =>
    cases h
    exact .before hbefore
  · next hbefore =>
    simp only [not_or, UInt64.not_le] at hbefore
    split at h
    · next hafter =>
      cases h
      exact .after hbefore.2 hafter
    · next hafter =>
      obtain ⟨rise, hrise, h⟩ := bind_eq_ok.1 h
      obtain ⟨product, hproduct, h⟩ := bind_eq_ok.1 h
      obtain ⟨share, hshare, h⟩ := bind_eq_ok.1 h
      have hproduct := Decimal.mul_rounds hproduct
      have hshare := Decimal.div_rounds hshare
      rw [Decimal.value_ofUInt64] at hproduct hshare
      exact .inside hbefore.1 (UInt64.not_le.1 hafter)
        ⟨rise, product.value, share.value, Decimal.sub_rounds hrise, hproduct, hshare,
          Decimal.add_rounds h⟩

namespace OnRamp

theorem mirror (h : OnRamp r t x) : OnRamp r.mirror t (-x) := by
  cases h with
  | before h => exact Decimal.value_neg r.startPrice ▸ .before h
  | after hwindow h => exact Decimal.value_neg r.endPrice ▸ .after hwindow h
  | inside hstart hend h => exact .inside hstart hend h.mirror

theorem between (hle : r.startPrice.value ≤ r.endPrice.value) (h : OnRamp r t x) :
    r.startPrice.value ≤ x ∧ x ≤ r.endPrice.value := by
  cases h with
  | before => exact ⟨le_rfl, hle⟩
  | after => exact ⟨hle, le_rfl⟩
  | inside hstart hend h =>
    have helapsed := UInt64.toNat_sub_of_le _ _ (UInt64.le_of_lt hstart)
    have hduration := UInt64.toNat_sub_of_le _ _ (UInt64.le_of_lt (UInt64.lt_trans hstart hend))
    have hstart := UInt64.lt_iff_toNat_lt.1 hstart
    have hend := UInt64.lt_iff_toNat_lt.1 hend
    exact h.between hle (by omega) (by omega) (UInt64.toNat_lt _)

/-- Prices that rise never fall. -/
theorem mono (hle : r.startPrice.value ≤ r.endPrice.value) (h₁ : OnRamp r t₁ x₁)
    (h₂ : OnRamp r t₂ x₂) (htime : t₁ ≤ t₂) : x₁ ≤ x₂ := by
  cases h₁ with
  | before => exact (h₂.between hle).1
  | after hwindow hafter =>
    cases h₂ with
    | before h => grind
    | after => exact le_rfl
    | inside hstart hend => grind
  | inside hstart hend h =>
    cases h₂ with
    | before h => grind
    | after => exact ((OnRamp.inside hstart hend h).between hle).2
    | inside hstart' hend' h' =>
      refine h.mono hle h' ?_
      rw [UInt64.toNat_sub_of_le _ _ (UInt64.le_of_lt hstart),
        UInt64.toNat_sub_of_le _ _ (UInt64.le_of_lt hstart')]
      exact Nat.sub_le_sub_right (UInt64.le_iff_toNat_le.1 htime) _

end OnRamp

/-- **Prices stay between the ends of a ramp and never turn back**, rounded as they are. -/
theorem priceAt_monotone (r : PriceRamp) :
    (∀ {t p}, r.priceAt t = .ok p → min r.startPrice.value r.endPrice.value ≤ p.value ∧
      p.value ≤ max r.startPrice.value r.endPrice.value) ∧
    ∀ {t₁ t₂ p₁ p₂}, t₁ ≤ t₂ → r.priceAt t₁ = .ok p₁ → r.priceAt t₂ = .ok p₂ →
      (r.startPrice.value ≤ r.endPrice.value → p₁.value ≤ p₂.value) ∧
      (r.endPrice.value ≤ r.startPrice.value → p₂.value ≤ p₁.value) := by
  -- a ramp that falls is one that rises with the opposite prices
  have hmirror : r.endPrice.value ≤ r.startPrice.value →
      r.mirror.startPrice.value ≤ r.mirror.endPrice.value := by
    intro hle
    show r.startPrice.neg.value ≤ r.endPrice.neg.value
    rw [Decimal.value_neg, Decimal.value_neg]
    exact neg_le_neg hle
  refine ⟨fun {t p} h => ?_, fun {t₁ t₂ p₁ p₂} htime h₁ h₂ => ⟨fun hle => ?_, fun hle => ?_⟩⟩
  · have hramp := onRamp_of_priceAt h
    rcases le_total r.startPrice.value r.endPrice.value with hle | hle
    · rw [min_eq_left hle, max_eq_right hle]
      exact hramp.between hle
    · obtain ⟨hlow, hhigh⟩ := hramp.mirror.between (hmirror hle)
      rw [show r.mirror.startPrice.value = _ from Decimal.value_neg r.startPrice] at hlow
      rw [show r.mirror.endPrice.value = _ from Decimal.value_neg r.endPrice] at hhigh
      rw [min_eq_right hle, max_eq_left hle]
      exact ⟨neg_le_neg_iff.1 hhigh, neg_le_neg_iff.1 hlow⟩
  · exact (onRamp_of_priceAt h₁).mono hle (onRamp_of_priceAt h₂) htime
  · have hramp₁ := (onRamp_of_priceAt h₁).mirror
    have hramp₂ := (onRamp_of_priceAt h₂).mirror
    exact neg_le_neg_iff.1 (hramp₁.mono (hmirror hle) hramp₂ htime)

/-- A price that falls from one to zero within three milliseconds is at two thirds of one and
    then at a third, both of them rounded. -/
theorem priceAt_monotone_thirds :
    let r : PriceRamp := ⟨.ofUInt64 1, .zero, 0, 3⟩
    ∃ p₁ p₂, r.priceAt 1 = .ok p₁ ∧ r.priceAt 2 = .ok p₂ ∧ p₂.value ≤ p₁.value ∧
      0 ≤ p₂.value ∧ p₁.value ≤ 1 := by
  intro r
  have h₁ : r.priceAt 1 = .ok ⟨false, 6666666666666666666666666667, 28, by decide, by decide⟩ :=
    toOption_eq_some_iff.1 (by decide +kernel)
  have h₂ : r.priceAt 2 = .ok ⟨false, 3333333333333333333333333333, 28, by decide, by decide⟩ :=
    toOption_eq_some_iff.1 (by decide +kernel)
  have hstart : r.startPrice.value = 1 := Decimal.value_ofUInt64 1
  have hend : r.endPrice.value = 0 := Decimal.value_zero
  obtain ⟨hbetween, hmono⟩ := priceAt_monotone r
  have hfalls : r.endPrice.value ≤ r.startPrice.value := by
    rw [hstart, hend]
    exact zero_le_one
  refine ⟨_, _, h₁, h₂, (hmono (by decide) h₁ h₂).2 hfalls, ?_, ?_⟩
  · simpa [hstart, hend] using (hbetween h₂).1
  · simpa [hstart, hend] using (hbetween h₁).2

end PriceRamp
end Matchbook
