/-
  What the operations give: the exact result, rounded once.

  * `add_rounds`, `sub_rounds`, `mul_rounds` are about sums, differences and products;
  * `Division.Stands`: the digits so far and the remainder stand for the exact quotient;
    `run_nears`: so the digits at the end are those of the quotient, rounded;
  * `div_rounds` is about quotients.
-/
import Matchbook.Proofs.Decimal.Division
import Matchbook.Proofs.Decimal.Nearest

namespace Matchbook.Decimal

variable {a b d : Decimal}

/-! ## Sum, difference and product -/

theorem withSign_natAbs (n : Int) (x : ℚ) :
    withSign (decide (n < 0)) (n.natAbs / x) = n / x := by
  unfold withSign
  by_cases hn : n < 0
  · rw [if_pos (decide_eq_true hn), Nat.cast_natAbs, abs_of_neg hn, Int.cast_neg, neg_div, neg_neg]
  · rw [if_neg (by simpa using hn), Nat.cast_natAbs, abs_of_nonneg (not_lt.1 hn)]

theorem withSign_mul (m n : Bool) (x y : ℚ) :
    withSign (m != n) (x * y) = withSign m x * withSign n y := by
  cases m <;> cases n <;> simp [withSign]

theorem withSign_div (m n : Bool) (x y : ℚ) :
    withSign (m != n) (x / y) = withSign m x / withSign n y := by
  cases m <;> cases n <;> simp [withSign, neg_div, div_neg]

/-- Digits that are dropped leave room for no more fraction digits. -/
theorem places_of_digitsToDrop {m s k : Nat} (h : digitsToDrop m s = some k) (hk : k ≠ 0) :
    Places ((m : ℚ) / 10 ^ s) (s - k) ∧ (m : ℚ) / 10 ^ s * 10 ^ (s - k) = m / powerOfTen k := by
  obtain ⟨hks, hscale, hlt, hmin⟩ := digitsToDrop_spec h
  have hdropped : ∀ j ≤ s, (m : ℚ) / 10 ^ s * 10 ^ (s - j) = m / powerOfTen j := by
    intro j hj
    rw [cast_powerOfTen, ← pow_sub_mul_pow 10 hj, div_mul_eq_mul_div, mul_comm,
      mul_div_mul_left _ _ (by positivity)]
  refine ⟨⟨by omega, ?_, ?_⟩, hdropped k hks⟩
  · rw [hdropped k hks, div_lt_iff₀ (by exact_mod_cast powerOfTen_pos k)]
    exact_mod_cast (Nat.div_lt_iff_lt_mul (powerOfTen_pos k)).1 hlt
  · obtain ⟨j, rfl⟩ := Nat.exists_eq_succ_of_ne_zero hk
    by_cases hs : s ≤ maxScale + j
    · have hone : s - j.succ + 1 = s - j := by omega
      rw [hone, hdropped j (by omega), le_div_iff₀ (by exact_mod_cast powerOfTen_pos j)]
      have hlong := hmin j (Nat.lt_succ_self j) hs
      exact Or.inr (by exact_mod_cast (Nat.le_div_iff_mul_le (powerOfTen_pos j)).1 hlong)
    · exact Or.inl (by omega)

/-- **Exact results are rounded once.** -/
theorem fit_rounds {negative : Bool} {m s : Nat} (h : fit negative m s = some d) :
    Rounds (withSign negative (m / 10 ^ s)) d.value := by
  unfold fit at h
  cases hk : digitsToDrop m s with
  | none =>
    rw [hk] at h
    cases h
  | some k =>
    rw [hk] at h
    dsimp only at h
    by_cases hk0 : k = 0
    · -- all digits stay
      subst hk0
      obtain ⟨-, hscale, hlt, -⟩ := digitsToDrop_spec hk
      rw [powerOfTen_zero, Nat.div_one] at hlt
      rw [powerOfTen_zero, ← Nat.mul_one m, roundHalfEven_mul _ _ Nat.one_pos, if_pos hlt] at h
      rw [value_ofParts? h]
      exact (nears_of_digits hlt hscale).rounds_withSign (by positivity) negative
    · obtain ⟨hplaces, hdropped⟩ := places_of_digitsToDrop hk hk0
      have hnears : Nears ((m : ℚ) / 10 ^ s)
          (carry (roundHalfEven m (powerOfTen k)) / 10 ^ (s - k)) :=
        ⟨s - k, _, hplaces, hdropped ▸ isNearest_roundHalfEven m (powerOfTen_pos k), rfl⟩
      have hrounds := hnears.rounds_withSign (by positivity) negative
      split at h
      · next hlt =>
        rw [value_ofParts? h]
        rwa [carry_eq hlt] at hrounds
      · next hfull =>
        split at h
        · cases h
        · next hs =>
          rw [value_ofParts? h]
          obtain ⟨j, hj⟩ := Nat.exists_eq_succ_of_ne_zero hs
          rw [carry, if_neg hfull, hj, pow_succ, Nat.cast_mul, Nat.cast_ofNat,
            mul_div_mul_right _ _ (by norm_num)] at hrounds
          rwa [hj]

theorem combine_rounds {op : Int → Int → Int} {f : ℚ → ℚ → ℚ}
    (hop : ∀ x y : Int, ((op x y : Int) : ℚ) = f x y)
    (hdiv : ∀ x y z : ℚ, f x y / z = f (x / z) (y / z)) (h : combine op a b = some d) :
    Rounds (f a.value b.value) d.value := by
  have hrounds := fit_rounds h
  rw [withSign_natAbs, hop, hdiv, value_mul_pow a (Nat.le_max_left _ _),
    value_mul_pow b (Nat.le_max_right _ _)] at hrounds
  exact hrounds

/-- **A sum is the exact one, rounded once.** -/
theorem add_rounds (h : a.add b = .ok d) : Rounds (a.value + b.value) d.value := by
  unfold add at h
  split at h
  · next ha =>
    cases h
    rw [(a.isZero_iff_value).1 ha, zero_add]
    exact rounds_value b
  · split at h
    · next hb =>
      cases h
      rw [(b.isZero_iff_value).1 hb, add_zero]
      exact rounds_value a
    · cases hc : combine (· + ·) a b with
      | none =>
        rw [hc] at h
        cases h
      | some c =>
        rw [hc] at h
        cases h
        exact combine_rounds (f := (· + ·)) (fun x y => Int.cast_add x y) add_div hc

/-- **A difference is the exact one, rounded once.** -/
theorem sub_rounds (h : a.sub b = .ok d) : Rounds (a.value - b.value) d.value := by
  unfold sub at h
  split at h
  · next ha =>
    cases h
    rw [(a.isZero_iff_value).1 ha, zero_sub, ← value_neg]
    exact rounds_value b.neg
  · split at h
    · next hb =>
      cases h
      rw [(b.isZero_iff_value).1 hb, sub_zero]
      exact rounds_value a
    · cases hc : combine (· - ·) a b with
      | none =>
        rw [hc] at h
        cases h
      | some c =>
        rw [hc] at h
        cases h
        exact combine_rounds (f := (· - ·)) (fun x y => Int.cast_sub x y) sub_div hc

/-- **A product is the exact one, rounded once.** -/
theorem mul_rounds (h : a.mul b = .ok d) : Rounds (a.value * b.value) d.value := by
  unfold mul at h
  split at h
  · next hzero =>
    cases h
    have hproduct : a.value * b.value = zero.value := by
      rw [value_zero, mul_eq_zero, ← isZero_iff_value, ← isZero_iff_value]
      simpa using hzero
    rw [hproduct]
    exact rounds_value zero
  · split at h
    · next hc =>
      cases h
      have hrounds := fit_rounds hc
      rwa [Nat.cast_mul, pow_add, ← div_mul_div_comm, withSign_mul, ← value_eq_withSign,
        ← value_eq_withSign] at hrounds
    · cases h

/-! ## Division -/

namespace Division

variable {x : ℚ} {divisor : Nat} {d : Division}

/-- The digits so far stand for the quotient, together with the remainder. -/
structure Stands (x : ℚ) (divisor : Nat) (d : Division) : Prop where
  remainder_lt : d.remainder < divisor
  quotient_lt : d.quotient < coefficientBound
  scale_le : d.scale ≤ maxScale
  value : x * 10 ^ d.scale = d.quotient + (d.remainder : ℚ) / divisor

/-- The quotient, rounded, or the division goes on. -/
def Leads (x : ℚ) (divisor : Nat) : Option (Result ⊕ Division) → Prop
  | none => True
  | some (.inl result) => Nears x (result.quotient / 10 ^ result.scale.toNat)
  | some (.inr next) => next.Stands x divisor

/-- A remainder is a part of the divisor. -/
theorem fraction_spec {r : Nat} (hr : r < divisor) :
    0 ≤ (r : ℚ) / divisor ∧ (r : ℚ) / divisor < 1 := by
  have hpos : (0 : ℚ) < divisor := by exact_mod_cast Nat.lt_of_le_of_lt (Nat.zero_le _) hr
  exact ⟨by positivity, (div_lt_one hpos).2 (by exact_mod_cast hr)⟩

/-- The quotient is that of the coefficients at first. -/
theorem stands_start (a : Decimal) {b : Decimal} (hb : ¬ b.isZero = true) :
    Stands ((a.coefficient : ℚ) / 10 ^ a.scale / (b.coefficient / 10 ^ b.scale)) b.coefficient
      ⟨a.coefficient / b.coefficient, a.coefficient % b.coefficient,
        (a.scale : Int) - b.scale, false⟩ := by
  have hpos : 0 < b.coefficient := Nat.pos_of_ne_zero (by simpa [isZero] using hb)
  have hscale := a.scale_le
  refine ⟨Nat.mod_lt _ hpos, Nat.lt_of_le_of_lt (Nat.div_le_self _ _) a.coefficient_lt,
    by simp only; omega, ?_⟩
  have hne : (b.coefficient : ℚ) ≠ 0 := by exact_mod_cast hpos.ne'
  dsimp only
  rw [zpow_sub₀ (by norm_num), zpow_natCast, zpow_natCast, ← mul_div_cancel_right₀
    ((a.coefficient / b.coefficient : Nat) : ℚ) hne, ← add_div, cast_div_add_mod]
  field_simp

section

variable (h : d.Stands x divisor)
include h

theorem Stands.value_toNat (hs : 0 ≤ d.scale) :
    x * 10 ^ d.scale.toNat = d.quotient + (d.remainder : ℚ) / divisor := by
  rw [← h.value, ← zpow_natCast, Int.toNat_of_nonneg hs]

/-- Digits that are brought down do not change the quotient. -/
theorem Stands.bringDown (p : Nat) : d.remainder * powerOfTen p % divisor < divisor ∧
    x * 10 ^ (d.scale + p) =
      (d.quotient * powerOfTen p + d.remainder * powerOfTen p / divisor : Nat) +
        (d.remainder * powerOfTen p % divisor : Nat) / (divisor : ℚ) := by
  have hpos : 0 < divisor := Nat.lt_of_le_of_lt (Nat.zero_le _) h.remainder_lt
  have hne : (divisor : ℚ) ≠ 0 := by exact_mod_cast hpos.ne'
  refine ⟨Nat.mod_lt _ hpos, ?_⟩
  have hmod : ((d.remainder * powerOfTen p / divisor : Nat) : ℚ) * divisor +
      (d.remainder * powerOfTen p % divisor : Nat) = d.remainder * 10 ^ p := by
    rw [cast_div_add_mod, Nat.cast_mul, cast_powerOfTen]
  rw [zpow_add₀ (by norm_num), zpow_natCast, ← mul_assoc, h.value, Nat.cast_add, Nat.cast_mul,
    cast_powerOfTen, add_mul, add_assoc, div_mul_eq_mul_div, ← hmod, add_div,
    mul_div_cancel_right₀ _ hne]

end

/-- A digit is taken off a quotient that is too long, with what is behind it. -/
theorem shorten_spec {q q' : Nat} {scale scale' : Int} {sticky : Bool}
    (h : shorten q scale sticky = some (q', scale')) : 0 < scale ∧ scale' = scale - 1 ∧
      ∀ {f : ℚ}, 0 ≤ f → f < 1 → (sticky = true ↔ f ≠ 0) → IsNearest ((q + f) / 10) q' := by
  unfold shorten at h
  split at h
  · cases h
  · next hscale =>
    dsimp only at h
    obtain ⟨rfl, rfl⟩ := Prod.mk.inj (Option.some.inj h)
    refine ⟨not_le.1 hscale, rfl, fun {f} h0 h1 hsticky => ?_⟩
    have hmod : ((q / 10 : Nat) : ℚ) * 10 + (q % 10 : Nat) = q := cast_div_add_mod q 10
    have hx : ((q : ℚ) + f) / 10 = (q / 10 : Nat) + ((q % 10 : Nat) + f) / 10 := by
      rw [← hmod]
      ring
    have hlt : ((q % 10 : Nat) : ℚ) ≤ 9 := by
      exact_mod_cast Nat.le_of_lt_succ (Nat.mod_lt q (show 0 < 10 by decide))
    rw [hx]
    refine isNearest_of_fraction _ (by positivity) (by linarith) (fun hup => ?_) fun hdown => ?_
    · simp only [Bool.or_eq_true, Bool.and_eq_true, decide_eq_true_eq, beq_iff_eq] at hup
      rcases hup with hgt | ⟨hfive, hbehind⟩
      · have hgt : (6 : ℚ) ≤ (q % 10 : Nat) := by exact_mod_cast hgt
        exact ⟨by linarith, fun heq => by linarith⟩
      · rw [hfive]
        refine ⟨by push_cast; linarith, fun heq => Nat.not_even_iff.2 ?_⟩
        have hzero : f = 0 := by
          push_cast at heq
          linarith
        exact hbehind.resolve_left fun hs => hsticky.1 hs hzero
    · simp only [Bool.or_eq_false_iff, Bool.and_eq_false_iff, decide_eq_false_iff_not,
        beq_eq_false_iff_ne] at hdown
      obtain ⟨hle, hfive⟩ := hdown
      rcases hfive with hne | ⟨hs, heven⟩
      · have hle : ((q % 10 : Nat) : ℚ) ≤ 4 := by exact_mod_cast (by omega : q % 10 ≤ 4)
        exact ⟨by linarith, fun heq => by linarith⟩
      · have hzero : f = 0 := by
          by_contra hne
          rw [hsticky.2 hne] at hs
          cases hs
        have hle : ((q % 10 : Nat) : ℚ) ≤ 5 := by exact_mod_cast not_lt.1 hle
        exact ⟨by linarith, fun _ => Nat.even_iff.2 (by omega)⟩

theorem shorten_bound (scale : Int) : shorten coefficientBound scale true =
    if scale ≤ 0 then none else some (7922816251426433759354395034, scale - 1) := rfl

/-- The quotient is rounded on the remainder. -/
theorem close_leads (h : d.Stands x divisor) (hs : 0 ≤ d.scale)
    (hroom : d.scale = maxScale ∨ coefficientBound ≤ d.quotient * 10) :
    Leads x divisor ((d.close divisor).map .inl) := by
  obtain ⟨h0, h1⟩ := fraction_spec h.remainder_lt
  have hvalue := h.value_toNat hs
  have hscale := h.scale_le
  have hplaces : Places x d.scale.toNat := by
    refine ⟨by omega, ?_, hroom.imp (by omega) fun hfull => ?_⟩
    · have hquotient : (d.quotient : ℚ) + 1 ≤ coefficientBound := by exact_mod_cast h.quotient_lt
      rw [hvalue]
      exact lt_of_lt_of_le (add_lt_add_right h1 _) hquotient
    · have hfull : (coefficientBound : ℚ) ≤ d.quotient * 10 := by exact_mod_cast hfull
      rw [pow_succ, ← mul_assoc, hvalue, add_mul]
      exact hfull.trans (le_add_of_nonneg_right (by positivity))
  have hnearest := isNearest_add_div d.quotient h.remainder_lt
  rw [← hvalue] at hnearest
  unfold close
  dsimp only
  generalize (if (decide (divisor < 2 * d.remainder) ||
    (2 * d.remainder == divisor && d.quotient % 2 == 1)) = true then d.quotient + 1
    else d.quotient) = q at hnearest ⊢
  split
  · next hq => exact ⟨d.scale.toNat, q, hplaces, hnearest, by rw [carry_eq hq]⟩
  · next hlong =>
    -- rounding has reached the bound
    obtain rfl : q = coefficientBound :=
      Nat.le_antisymm (hplaces.le_bound hnearest) (not_lt.1 hlong)
    rw [shorten_bound]
    split
    · trivial
    · refine ⟨d.scale.toNat, _, hplaces, hnearest, ?_⟩
      obtain ⟨j, hj⟩ := Nat.exists_eq_succ_of_ne_zero (show d.scale.toNat ≠ 0 by omega)
      have hj' : (d.scale - 1).toNat = j := by omega
      rw [carry_bound, hj, hj', pow_succ, div_eq_div_iff (by positivity) (by positivity)]
      push_cast
      ring

/-- Digits are brought down, and one that is too many is taken off. -/
theorem bringDown_leads (h : d.Stands x divisor) {p : Nat} (hnine : p ≤ 9)
    (hp : d.scale + p ≤ maxScale) : Leads x divisor (d.bringDown divisor p) := by
  obtain ⟨hremainder, hvalue⟩ := h.bringDown p
  have hbrought : d.remainder * powerOfTen p / divisor < powerOfTen 9 := by
    rw [Nat.div_lt_iff_lt_mul (Nat.lt_of_le_of_lt (Nat.zero_le _) h.remainder_lt)]
    calc d.remainder * powerOfTen p < divisor * powerOfTen p :=
          Nat.mul_lt_mul_of_pos_right h.remainder_lt (powerOfTen_pos p)
      _ ≤ divisor * powerOfTen 9 := Nat.mul_le_mul_left _ (powerOfTen_le_of_le hnine)
      _ = powerOfTen 9 * divisor := Nat.mul_comm _ _
  unfold Division.bringDown
  dsimp only
  split
  · trivial
  · next hlt =>
    have hq : d.quotient * powerOfTen p + d.remainder * powerOfTen p / divisor <
        coefficientBound + powerOfTen 9 := by omega
    generalize d.quotient * powerOfTen p + d.remainder * powerOfTen p / divisor = q at hq hvalue ⊢
    generalize d.remainder * powerOfTen p % divisor = r at hremainder hvalue ⊢
    split
    · next hfits => exact ⟨hremainder, hfits, hp, hvalue⟩
    · next hlong =>
      cases hshorten : shorten q (d.scale + p) (r != 0) with
      | none => trivial
      | some last =>
        obtain ⟨q', s'⟩ := last
        obtain ⟨hpos, rfl, hnearest⟩ := shorten_spec hshorten
        obtain ⟨j, hj⟩ := Int.eq_succ_of_zero_lt hpos
        rw [hj] at hvalue hp ⊢
        have hx : x * 10 ^ j = (q + (r : ℚ) / divisor) / 10 := by
          rw [← hvalue, zpow_add_one₀ (by norm_num), zpow_natCast, ← mul_assoc,
            mul_div_cancel_right₀ _ (by norm_num)]
        obtain ⟨h0, h1⟩ := fraction_spec hremainder
        have hdivisor : (divisor : ℚ) ≠ 0 := by exact_mod_cast Nat.ne_zero_of_lt hremainder
        have hnearest : IsNearest (x * 10 ^ j) q' := by
          rw [hx]
          exact hnearest h0 h1 (by simp [hdivisor])
        -- no more than nine digits have come, so there is room again
        have hroom : x * 10 ^ j + 1 / 2 < coefficientBound := by
          have hq : (q : ℚ) + 1 ≤ (coefficientBound + powerOfTen 9 : Nat) := by exact_mod_cast hq
          have hten : ((coefficientBound + powerOfTen 9 : Nat) : ℚ) / 10 + 1 / 2 <
              coefficientBound := by
            norm_num [powerOfTen]
          rw [hx]
          linarith
        have hlong : (coefficientBound : ℚ) ≤ q := by exact_mod_cast not_lt.1 hlong
        have hplaces : Places x j := by
          refine ⟨by omega, lt_trans (lt_add_of_pos_right _ (by norm_num)) hroom, Or.inr ?_⟩
          rw [pow_succ, ← mul_assoc, hx, div_mul_cancel₀ _ (by norm_num)]
          exact hlong.trans (le_add_of_nonneg_right h0)
        have hfits : q' < coefficientBound := by
          exact_mod_cast lt_of_le_of_lt hnearest.le hroom
        refine ⟨j, q', hplaces, hnearest, ?_⟩
        rw [carry_eq hfits]
        simp

/-- **A round** keeps the quotient. -/
theorem step_leads (h : d.Stands x divisor) : Leads x divisor (d.step divisor) := by
  have hscale := h.scale_le
  unfold step
  split
  · next hr =>
    split
    · next hs =>
      -- it has come out even
      have hx : x = d.quotient / 10 ^ d.scale.toNat := by
        rw [eq_div_iff (by positivity), h.value_toNat hs, hr, Nat.cast_zero, zero_div, add_zero]
      show Nears x _
      rw [hx]
      exact nears_of_digits h.quotient_lt (by omega)
    · exact bringDown_leads h (by omega) (by omega)
  · have h' : ({ d with inexact := true } : Division).Stands x divisor := ⟨h.1, h.2, h.3, h.4⟩
    obtain ⟨hnine, hmost, hroom, hmax⟩ := room_spec h.quotient_lt d.scale
    have hp : (if d.scale = 28 then 0 else room d.quotient d.scale) = room d.quotient d.scale := by
      split
      · next hfull =>
        rw [hfull] at hmost ⊢
        exact (Nat.le_zero.1 hmost).symm
      · rfl
    dsimp only
    rw [hp]
    split
    · trivial
    · next hwhole =>
      split
      · next hzero =>
        rw [hzero] at hwhole hmax
        refine close_leads h' (by simpa using hwhole) ?_
        by_cases hfull : d.scale = maxScale
        · exact Or.inl hfull
        · exact Or.inr (by simpa [powerOfTen_succ] using hmax (by omega) (by omega))
      · exact bringDown_leads h' hnine (by simp only; omega)

/-- **The division** gives the quotient, rounded. -/
theorem run_nears : ∀ {rounds : Nat} {d : Division} {result : Result}, d.Stands x divisor →
    run divisor rounds d = some result → Nears x (result.quotient / 10 ^ result.scale.toNat)
  | rounds + 1, d, result, h, hrun => by
    have hleads := step_leads h
    rw [run] at hrun
    rcases hstep : d.step divisor with _ | last | next <;> rw [hstep] at hleads hrun
    · cases hrun
    · cases hrun
      exact hleads
    · exact run_nears hleads hrun

/-! ## Trailing zeros -/

/-- Zeros at the end of a fraction do not count. -/
theorem div_powerOfTen_value {q s k : Nat} (hk : k ≤ s) (hq : q % powerOfTen k = 0) :
    ((q / powerOfTen k : Nat) : ℚ) / 10 ^ (s - k) = q / 10 ^ s := by
  have hmul : ((q / powerOfTen k : Nat) : ℚ) * 10 ^ k = q := by
    rw [← cast_powerOfTen]
    exact_mod_cast Nat.div_mul_cancel (Nat.dvd_of_mod_eq_zero hq)
  rw [← hmul, ← pow_sub_mul_pow 10 hk, mul_div_mul_right _ _ (by positivity)]

theorem dropRun_value (k : Nat) (y : Nat × Nat) :
    ((dropRun k y).1 : ℚ) / 10 ^ (dropRun k y).2 = y.1 / 10 ^ y.2 := by
  unfold dropRun
  dsimp only
  split
  · next hdrop => exact div_powerOfTen_value hdrop.1 hdrop.2
  · rfl

theorem dropEights_value : ∀ (rounds q s : Nat),
    ((dropEights rounds q s).1 : ℚ) / 10 ^ (dropEights rounds q s).2 = q / 10 ^ s
  | 0, _, _ => rfl
  | rounds + 1, q, s => by
    rw [dropEights]
    split
    · next hdrop =>
      rw [dropEights_value rounds, div_powerOfTen_value hdrop.2.1 hdrop.2.2]
    · rfl

theorem tidy_value (result : Result) :
    ((tidy result).1 : ℚ) / 10 ^ (tidy result).2 = result.quotient / 10 ^ result.scale.toNat := by
  unfold tidy
  split
  · rw [dropRun_value, dropRun_value, dropRun_value, dropEights_value]
  · rfl

end Division

/-- **A quotient is the exact one, rounded once.** -/
theorem div_rounds (h : a.div b = .ok d) : Rounds (a.value / b.value) d.value := by
  unfold div at h
  split at h
  · cases h
  · next hb =>
    split at h
    · next ha =>
      cases h
      rw [(a.isZero_iff_value).1 ha, zero_div, ← value_zero]
      exact rounds_value zero
    · dsimp only at h
      split at h
      · cases h
      · next result hrun =>
        split at h
        · next hc =>
          cases h
          have hnears := Division.run_nears (Division.stands_start a hb) hrun
          rw [← Division.tidy_value] at hnears
          have hrounds := hnears.rounds_withSign (by positivity) (a.negative != b.negative)
          rwa [withSign_div, ← value_eq_withSign, ← value_eq_withSign,
            ← value_ofParts? hc] at hrounds
        · cases h

end Matchbook.Decimal
