/-
  Long division comes to an end.

  * `Division.Bounded` is what every round keeps: the digits so far, with what remains
    to be divided, stand for a number that is small enough;
  * `step_goes`: a round finishes with digits that fit (`Fits`) or brings more of them
    down, and `run_fits`, `tidy_fits`: so the division finishes, and trailing zeros are
    dropped;
  * `div_within`: a quotient that is small enough is computed, and how large it is.
-/
import Matchbook.Proofs.Decimal.Magnitude

namespace Matchbook.Decimal

namespace Division

variable {divisor n : Nat} {d : Division}

/-- The digits, of which so many are fraction digits, are those of a decimal that is at
    most `n`. -/
structure Fits (n : Nat) (x : Nat × Nat) : Prop where
  lt : x.1 < coefficientBound
  scale_le : x.2 ≤ maxScale
  le : x.1 ≤ n * powerOfTen x.2

/-- The number that the digits so far stand for, together with the remainder, is at most
    `n`. -/
structure Bounded (divisor n : Nat) (d : Division) : Prop where
  remainder_lt : d.remainder < divisor
  scale_le : d.scale ≤ maxScale
  value_le : (d.quotient * divisor + d.remainder) * powerOfTen (maxScale - d.scale).toNat ≤
    n * divisor * powerOfTen maxScale

namespace Bounded

section

variable (h : d.Bounded divisor n)
include h

theorem divisor_pos : 0 < divisor := Nat.lt_of_le_of_lt (Nat.zero_le _) h.remainder_lt

/-- While whole places are missing, the quotient with zeros in them is at most `n`. -/
theorem mul_le {p : Nat} (hp : d.scale + p ≤ 0) : d.quotient * powerOfTen p ≤ n := by
  have hpow : powerOfTen p * powerOfTen maxScale ≤ powerOfTen (maxScale - d.scale).toNat := by
    rw [← powerOfTen_add]
    exact powerOfTen_le_of_le (by omega)
  refine Nat.le_of_mul_le_mul_right ?_ (Nat.mul_pos h.divisor_pos (powerOfTen_pos maxScale))
  calc d.quotient * powerOfTen p * (divisor * powerOfTen maxScale)
      = d.quotient * divisor * (powerOfTen p * powerOfTen maxScale) := Nat.mul_mul_mul_comm _ _ _ _
    _ ≤ (d.quotient * divisor + d.remainder) * powerOfTen (maxScale - d.scale).toNat :=
      Nat.mul_le_mul (Nat.le_add_right _ _) hpow
    _ ≤ n * divisor * powerOfTen maxScale := h.value_le
    _ = n * (divisor * powerOfTen maxScale) := Nat.mul_assoc _ _ _

/-- Once none is missing, the quotient is at most `n` over the denominator, and below it
    if anything remains. -/
theorem quotient_le (hs : 0 ≤ d.scale) : d.quotient ≤ n * powerOfTen d.scale.toNat ∧
    (d.remainder ≠ 0 → d.quotient < n * powerOfTen d.scale.toNat) := by
  have hscale := h.scale_le
  have hpow : powerOfTen maxScale =
      powerOfTen d.scale.toNat * powerOfTen (maxScale - d.scale).toNat := by
    rw [← powerOfTen_add]
    congr 1
    omega
  have hle : d.quotient * divisor + d.remainder ≤ n * powerOfTen d.scale.toNat * divisor := by
    refine Nat.le_of_mul_le_mul_right ?_ (powerOfTen_pos (maxScale - d.scale).toNat)
    calc (d.quotient * divisor + d.remainder) * powerOfTen (maxScale - d.scale).toNat
        ≤ n * divisor * powerOfTen maxScale := h.value_le
      _ = n * powerOfTen d.scale.toNat * divisor * powerOfTen (maxScale - d.scale).toNat := by
        rw [hpow, ← Nat.mul_assoc, Nat.mul_right_comm n divisor]
  refine ⟨Nat.le_of_mul_le_mul_right (by omega) h.divisor_pos, fun hr => ?_⟩
  exact Nat.lt_of_mul_lt_mul_right (show d.quotient * divisor < _ * divisor by omega)

/-- Digits that are brought down do not change the number. -/
theorem bringDown {p : Nat} (hp : d.scale + p ≤ maxScale) (inexact : Bool) : Bounded divisor n
    ⟨d.quotient * powerOfTen p + d.remainder * powerOfTen p / divisor,
      d.remainder * powerOfTen p % divisor, d.scale + p, inexact⟩ where
  remainder_lt := Nat.mod_lt _ h.divisor_pos
  scale_le := hp
  value_le := by
    have hvalue : (d.quotient * powerOfTen p + d.remainder * powerOfTen p / divisor) * divisor +
        d.remainder * powerOfTen p % divisor =
          (d.quotient * divisor + d.remainder) * powerOfTen p := by
      rw [Nat.add_mul, Nat.add_assoc, Nat.div_add_mod', Nat.add_mul, Nat.mul_right_comm]
    have hpow : powerOfTen p * powerOfTen (maxScale - (d.scale + p)).toNat =
        powerOfTen (maxScale - d.scale).toNat := by
      rw [← powerOfTen_add]
      congr 1
      omega
    dsimp only
    rw [hvalue, Nat.mul_assoc, hpow]
    exact h.value_le

end

/-- The number is that of the dividend at first. -/
theorem init {a s t : Nat} (hd : 0 < divisor) (hs : s ≤ maxScale)
    (h : a * powerOfTen t ≤ n * divisor * powerOfTen s) (inexact : Bool) :
    Bounded divisor n ⟨a / divisor, a % divisor, (s : Int) - t, inexact⟩ where
  remainder_lt := Nat.mod_lt _ hd
  scale_le := by simp only; omega
  value_le := by
    have hpow : powerOfTen (maxScale - ((s : Int) - t)).toNat =
        powerOfTen t * powerOfTen (maxScale - s) := by
      rw [← powerOfTen_add]
      congr 1
      omega
    dsimp only
    rw [Nat.div_add_mod', hpow, ← powerOfTen_sub_mul hs, Nat.mul_comm (powerOfTen (maxScale - s)),
      ← Nat.mul_assoc, ← Nat.mul_assoc]
    exact Nat.mul_le_mul_right _ h

end Bounded

/-! ## The rounds -/

/-- The division finishes with digits that fit, or goes on with more fraction digits. -/
def Goes (divisor n : Nat) (d : Division) : Option (Result ⊕ Division) → Prop
  | none => False
  | some (.inl result) => Fits n (result.quotient, result.scale.toNat)
  | some (.inr next) =>
    next.Bounded divisor n ∧ next.quotient < coefficientBound ∧ d.scale < next.scale

/-- A quotient that is a little too long loses a fraction digit, and is not rounded past
    `n`. -/
theorem shorten_fits {q : Nat} {scale : Int} (sticky : Bool) (hn : n < coefficientBound)
    (hlong : coefficientBound ≤ q) (hq : q ≤ coefficientBound + powerOfTen 9)
    (hscale : scale ≤ maxScale) (hle : 0 ≤ scale → q ≤ n * powerOfTen scale.toNat)
    (hwhole : scale ≤ 0 → q ≤ n) :
    ∃ q', shorten q scale sticky = some (q', scale - 1) ∧ Fits n (q', (scale - 1).toNat) := by
  have hbound : powerOfTen 9 + 10 ≤ 9 * coefficientBound - 10 := by decide
  -- whole numbers up to `n` fit, so there are fraction digits
  have hpos : ¬ scale ≤ 0 := fun h => by
    have := hwhole h
    omega
  have hpow : n * powerOfTen scale.toNat = n * powerOfTen (scale - 1).toNat * 10 := by
    rw [Nat.mul_assoc, ← powerOfTen_succ]
    congr 2
    omega
  have hle := hle (by omega)
  rw [shorten, if_neg hpos]
  refine ⟨_, rfl, ?_, by simp only; omega, ?_⟩
  · dsimp only
    split <;> omega
  · dsimp only
    split
    · next hup =>
      -- a digit that is rounded up is not zero
      have hdigit : 5 ≤ q % 10 := by
        simp only [Bool.or_eq_true, Bool.and_eq_true, decide_eq_true_eq, beq_iff_eq] at hup
        omega
      omega
    · omega

/-- The quotient is rounded on the remainder. -/
theorem close_goes (h : d.Bounded divisor n) (hq : d.quotient < coefficientBound)
    (hn : n < coefficientBound) (hs : 0 ≤ d.scale) (hr : d.remainder ≠ 0) :
    Goes divisor n d ((d.close divisor).map .inl) := by
  have hscale := h.scale_le
  have hbelow := (h.quotient_le hs).2 hr
  unfold close
  dsimp only
  generalize (decide (divisor < 2 * d.remainder) ||
    (2 * d.remainder == divisor && d.quotient % 2 == 1)) = up
  have hle : (if up then d.quotient + 1 else d.quotient) ≤ d.quotient + 1 := by
    split <;> omega
  generalize (if up then d.quotient + 1 else d.quotient) = q at hle ⊢
  split
  · next hq => exact ⟨hq, by simp only; omega, by simp only; omega⟩
  · next hlong =>
    obtain ⟨q', hshorten, hfits⟩ := shorten_fits (n := n) true hn (Nat.le_of_not_lt hlong)
      (by omega) hscale (fun _ => Nat.le_trans hle hbelow) (fun h => by
        rw [Int.le_antisymm h hs, Int.toNat_zero, powerOfTen_zero, Nat.mul_one] at hbelow
        omega)
    rw [hshorten]
    exact hfits

/-- Digits are brought down, as many as there is room for. -/
theorem bringDown_goes (h : d.Bounded divisor n) (hn : n < coefficientBound) {p : Nat}
    (hpos : 0 < p) (hnine : p ≤ 9) (hroom : d.quotient * powerOfTen p < coefficientBound)
    (hp : d.scale + p ≤ maxScale) : Goes divisor n d (d.bringDown divisor p) := by
  have hnext := h.bringDown hp d.inexact
  have hbrought : d.remainder * powerOfTen p / divisor < powerOfTen p := by
    rw [Nat.div_lt_iff_lt_mul h.divisor_pos, Nat.mul_comm]
    exact Nat.mul_lt_mul_of_pos_left h.remainder_lt (powerOfTen_pos p)
  have hten := powerOfTen_le_of_le hnine
  rw [Division.bringDown]
  dsimp only
  rw [if_neg (Nat.not_le.2 hroom)]
  split
  · next hq => exact ⟨hnext, hq, by simp only; omega⟩
  · next hlong =>
    obtain ⟨q', hshorten, hfits⟩ := shorten_fits (n := n)
      (d.remainder * powerOfTen p % divisor != 0) hn (Nat.le_of_not_lt hlong) (by omega) hp
      (fun hs => (hnext.quotient_le hs).1)
      (fun hs => by simpa using hnext.mul_le (p := 0) (by simpa using hs))
    rw [hshorten]
    exact hfits

/-- The last number up to `most` that passes, if zero does. -/
theorem find?_reverse_range {P : Nat → Bool} (h0 : P 0 = true) (most : Nat) :
    ∃ p ≤ most, ((List.range (most + 1)).reverse.find? P).getD 0 = p ∧ P p = true ∧
      ∀ j, p < j → j ≤ most → P j = false := by
  induction most with
  | zero => exact ⟨0, Nat.le_refl 0, by simp [h0], h0, by omega⟩
  | succ most ih =>
    rw [List.range_succ, List.reverse_append]
    cases hP : P (most + 1) with
    | true => exact ⟨most + 1, Nat.le_refl _, by simp [hP], hP, by omega⟩
    | false =>
      obtain ⟨p, hp, hfind, hPp, hmax⟩ := ih
      refine ⟨p, by omega, by simpa [hP] using hfind, hPp, fun j hj hle => ?_⟩
      rcases Nat.lt_or_eq_of_le hle with hlt | rfl
      · exact hmax j hj (by omega)
      · exact hP

/-- As many digits as there is room for, up to nine: one more would not fit or be one
    fraction digit too many. -/
theorem room_spec {q : Nat} (hq : q < coefficientBound) (scale : Int) :
    room q scale ≤ 9 ∧ room q scale ≤ (maxScale - scale).toNat ∧
      q * powerOfTen (room q scale) < coefficientBound ∧
        (room q scale < 9 → room q scale < (maxScale - scale).toNat →
          coefficientBound ≤ q * powerOfTen (room q scale + 1)) := by
  have hzero : decide (q * powerOfTen 0 < coefficientBound) = true := by
    rwa [powerOfTen_zero, Nat.mul_one, decide_eq_true_eq]
  obtain ⟨p, hp, hfind, hfits, hmax⟩ := find?_reverse_range
    (P := fun p => decide (q * powerOfTen p < coefficientBound)) hzero
    (min 9 (maxScale - scale).toNat)
  have hroom : room q scale = p := hfind
  rw [hroom]
  refine ⟨by omega, by omega, by simpa using hfits, fun h9 hs => ?_⟩
  exact Nat.le_of_not_lt (of_decide_eq_false (hmax (p + 1) (by omega) (by omega)))

/-- **A round** finishes or goes on. -/
theorem step_goes (h : d.Bounded divisor n) (hq : d.quotient < coefficientBound)
    (hn : n < coefficientBound) : Goes divisor n d (d.step divisor) := by
  have hscale := h.scale_le
  unfold step
  split
  · split
    · next hs =>
      -- it has come out even
      exact ⟨hq, by simp only; omega, (h.quotient_le hs).1⟩
    · next hs =>
      refine bringDown_goes h hn (by omega) (by omega) ?_ (by omega)
      exact Nat.lt_of_le_of_lt (h.mul_le (by omega)) hn
  · next hr =>
    have h' : ({ d with inexact := true } : Division).Bounded divisor n := ⟨h.1, h.2, h.3⟩
    obtain ⟨hnine, hmost, hroom, hmax⟩ := room_spec hq d.scale
    have hp : (if d.scale = 28 then 0 else room d.quotient d.scale) = room d.quotient d.scale := by
      split
      · next hfull =>
        rw [hfull] at hmost ⊢
        exact (Nat.le_zero.1 hmost).symm
      · rfl
    dsimp only
    rw [hp]
    -- if whole places were missing, another digit would fit
    have hwhole :
        ¬ (room d.quotient d.scale < 9 ∧ d.scale + (room d.quotient d.scale : Int) < 0) := by
      rintro ⟨h9, hneg⟩
      have hle := h.mul_le (p := room d.quotient d.scale + 1) (by omega)
      have := hmax h9 (by omega)
      omega
    rw [if_neg (by simpa using hwhole)]
    show Goes divisor n { d with inexact := true } _
    split
    · next hzero => exact close_goes h' hq hn (by simp only; omega) hr
    · exact bringDown_goes h' hn (by omega) hnine hroom (by simp only; omega)

/-- **The division finishes**: every round brings it nearer to the last fraction digit. -/
theorem run_fits (hn : n < coefficientBound) : ∀ {rounds : Nat} {d : Division},
    d.Bounded divisor n → d.quotient < coefficientBound → (maxScale - d.scale).toNat < rounds →
      ∃ result, run divisor rounds d = some result ∧ Fits n (result.quotient, result.scale.toNat)
  | rounds + 1, d, h, hq, hrounds => by
    have hgoes := step_goes h hq hn
    rw [run]
    match d.step divisor, hgoes with
    | some (.inl result), hfits => exact ⟨result, rfl, hfits⟩
    | some (.inr next), ⟨hnext, hq', hlt⟩ =>
      have := hnext.scale_le
      exact run_fits hn hnext hq' (by omega)

/-! ## Trailing zeros -/

theorem fits_drop {q s k : Nat} (h : Fits n (q, s)) (hk : k ≤ s) :
    Fits n (q / powerOfTen k, s - k) where
  lt := Nat.lt_of_le_of_lt (Nat.div_le_self _ _) h.lt
  scale_le := Nat.le_trans (Nat.sub_le _ _) h.scale_le
  le := by
    have hle := h.le
    refine Nat.div_le_of_le_mul ?_
    rw [Nat.mul_left_comm, Nat.mul_comm (powerOfTen k), powerOfTen_sub_mul hk]
    exact hle

theorem dropEights_fits : ∀ (rounds : Nat) {q s : Nat}, Fits n (q, s) →
    Fits n (dropEights rounds q s)
  | 0, _, _, h => h
  | rounds + 1, q, s, h => by
    rw [dropEights]
    split
    · next hdrop => exact dropEights_fits rounds (fits_drop h hdrop.2.1)
    · exact h

theorem dropRun_fits (k : Nat) {x : Nat × Nat} (h : Fits n x) : Fits n (dropRun k x) := by
  rw [dropRun]
  split
  · next hdrop => exact fits_drop h hdrop.1
  · exact h

theorem tidy_fits {result : Result} (h : Fits n (result.quotient, result.scale.toNat)) :
    Fits n (tidy result) := by
  rw [tidy]
  split
  · exact dropRun_fits 1 (dropRun_fits 2 (dropRun_fits 4 (dropEights_fits 4 h)))
  · exact h

end Division

/-- **Quotients that fit**: if the first number is at most `n` times the second, the
    quotient is computed and is at most `n`. -/
theorem div_within {a b : Decimal} {n : Nat} (hb : b.coefficient ≠ 0)
    (h : a.coefficient * powerOfTen b.scale ≤ n * b.coefficient * powerOfTen a.scale)
    (hn : n < coefficientBound) : ∃ d, a.div b = .ok d ∧ d.Within n := by
  have hbounded := Division.Bounded.init (Nat.pos_of_ne_zero hb) a.scale_le h false
  have hquotient : a.coefficient / b.coefficient < coefficientBound :=
    Nat.lt_of_le_of_lt (Nat.div_le_self _ _) a.coefficient_lt
  obtain ⟨result, hrun, hfits⟩ := Division.run_fits hn hbounded hquotient
    (show _ < (28 - ((a.scale : Int) - b.scale)).toNat + 1 from Nat.lt_succ_self _)
  obtain ⟨hlt, hscale, hle⟩ := Division.tidy_fits hfits
  obtain ⟨d, hd, hcoefficient, hdscale⟩ := exists_ofParts? (a.negative != b.negative) hlt hscale
  unfold div
  rw [if_neg (by simpa [isZero] using hb)]
  split
  · exact ⟨zero, rfl, within_zero n⟩
  · dsimp only
    rw [hrun]
    dsimp only
    rw [hd]
    exact ⟨d, rfl, by rwa [Within, hcoefficient, hdscale]⟩

end Matchbook.Decimal
