/-
  How the computation of prices and crossings can fail.

  * `exists_offset`: solving a line that rises from below zero divides nothing by zero,
    and the quotient is small enough, so that no division fails;
  * `crossing_failsOnly`: a crossing fails as the sums of prices do, or as the two
    operations before that division;
  * `Tame E R n`: with up to `n` ramps of the kind `R`, what is computed fails as `E`
    says.  Whatever the ramps are, nothing is divided by zero (`tame_overflow`).
-/
import Mathlib.Tactic.Ring
import Matchbook.Proofs.Decimal.Division
import Matchbook.Proofs.Price.Crossing

namespace Matchbook

/-! ## Decimals -/

namespace Decimal

variable (a b : Decimal)

theorem add_failsOnly : FailsOnly (· ≠ .divisionByZero) (a.add b) := by
  unfold add
  split
  · exact .ok _
  · split
    · exact .ok _
    · cases combine (· + ·) a b with
      | none => exact .error (by decide)
      | some c => exact .ok _

theorem sub_failsOnly : FailsOnly (· ≠ .divisionByZero) (a.sub b) := by
  unfold sub
  split
  · exact .ok _
  · split
    · exact .ok _
    · cases combine (· - ·) a b with
      | none => exact .error (by decide)
      | some c => exact .ok _

theorem mul_failsOnly : FailsOnly (· ≠ .divisionByZero) (a.mul b) := by
  unfold mul
  split
  · exact .ok _
  · cases fit (a.negative != b.negative) (a.coefficient * b.coefficient) (a.scale + b.scale) with
    | none => exact .error (by decide)
    | some c => exact .ok _

theorem div_failsOnly (hb : b.coefficient ≠ 0) : FailsOnly (· ≠ .divisionByZero) (a.div b) := by
  unfold div
  rw [if_neg (by simpa [isZero] using hb)]
  split
  · exact .ok _
  · dsimp only
    split
    · exact .error (by decide)
    · split
      · exact .ok _
      · exact .error (by decide)

end Decimal

namespace PriceRamp

variable {offers listings : List PriceRamp} {E : ArithmeticError → Prop}

/-- A single ramp adds up to its own price, with the same digits. -/
theorem sumAt_singleton (r : PriceRamp) (t : UInt64) : sumAt [r] t = r.priceAt t := by
  rw [sumAt, List.foldlM_cons]
  cases r.priceAt t <;> rfl

/-! ## Solving -/

/-- **No division fails** where a line is solved that rises from below zero to zero or
    above it: the line rises by half of what is missing at least. -/
theorem exists_offset {below above product rise : Decimal} {t : UInt64}
    (hbelow : below.isBelowZero = true) (habove : above.isBelowZero = false)
    (hproduct : (Decimal.ofUInt64 t).mul below.neg = .ok product)
    (hrise : above.sub below = .ok rise) : ∃ offset, product.div rise = .ok offset := by
  have hmissing : below.coefficient ≠ 0 :=
    ((Decimal.signed_neg_iff below).1 ((Decimal.isBelowZero_iff below).1 hbelow)).2
  have hnear := Decimal.sub_near habove hbelow hrise
  have hscale : (Decimal.ofUInt64 t).scale + below.neg.scale = below.scale := by
    rw [Decimal.neg_scale]
    exact Nat.zero_add _
  have hle := Decimal.mul_near (hscale ▸ below.scale_le) hproduct
  rw [hscale, Decimal.neg_coefficient] at hle
  have hrise : rise.coefficient ≠ 0 := by
    intro hzero
    rw [hzero, Nat.mul_zero, Nat.zero_mul] at hnear
    exact Nat.not_le.2 (Nat.mul_pos (Nat.pos_of_ne_zero hmissing) (powerOfTen_pos _)) hnear
  have hquotient : product.coefficient * powerOfTen rise.scale ≤
      4 * t.toNat * rise.coefficient * powerOfTen product.scale := by
    refine Nat.le_of_mul_le_mul_right ?_ (powerOfTen_pos below.scale)
    calc product.coefficient * powerOfTen rise.scale * powerOfTen below.scale
        = product.coefficient * powerOfTen below.scale * powerOfTen rise.scale :=
          Nat.mul_right_comm _ _ _
      _ ≤ 2 * (t.toNat * below.coefficient) * powerOfTen product.scale * powerOfTen rise.scale :=
          Nat.mul_le_mul_right _ hle
      _ = 2 * t.toNat * powerOfTen product.scale * (below.coefficient * powerOfTen rise.scale) := by
          ring
      _ ≤ 2 * t.toNat * powerOfTen product.scale *
            (2 * rise.coefficient * powerOfTen below.scale) := Nat.mul_le_mul_left _ hnear
      _ = 4 * t.toNat * rise.coefficient * powerOfTen product.scale * powerOfTen below.scale := by
          ring
  have hlt := t.toNat_lt
  have hbound : 4 * 2 ^ 64 < Decimal.coefficientBound := by decide
  obtain ⟨offset, hoffset, -⟩ := Decimal.div_within hrise hquotient (by omega)
  exact ⟨offset, hoffset⟩

variable (hspread : ∀ t, FailsOnly E (spread offers listings t))
include hspread

theorem firstPaid_failsOnly (last : UInt64) (times : List UInt64) :
    FailsOnly E (firstPaid offers listings last times) := by
  induction times with
  | nil => exact .ok _
  | cons t times ih =>
    refine (hspread t).bind fun gap _ => ?_
    split
    · exact ih
    · exact .ok _

theorem solve_failsOnly {first last : UInt64} {below above : Decimal}
    (hbelow : below.isBelowZero = true) (habove : above.isBelowZero = false)
    (hproduct : FailsOnly E ((Decimal.ofUInt64 (last - first)).mul below.neg))
    (hrise : FailsOnly E (above.sub below)) :
    FailsOnly E (solve offers listings first last below above) := by
  refine hproduct.bind fun product hproduct => hrise.bind fun rise hrise => ?_
  obtain ⟨offset, hoffset⟩ := exists_offset hbelow habove hproduct hrise
  rw [hoffset]
  exact firstPaid_failsOnly hspread _ _

/-- **A crossing fails** as the sums of prices do, or as the operations on the spreads at
    the ends of the shared window. -/
theorem crossing_failsOnly (hsum : ∀ t, FailsOnly E (sumAt listings t))
    (hsolve : ∀ {first last below above}, IsWindow (offers ++ listings) first last → first ≠ last →
      spread offers listings first = .ok below → spread offers listings last = .ok above →
        FailsOnly E ((Decimal.ofUInt64 (last - first)).mul below.neg) ∧
          FailsOnly E (above.sub below)) :
    FailsOnly E (crossing offers listings) := by
  by_cases hempty : (offers.isEmpty || listings.isEmpty) = true
  · unfold crossing
    rw [if_pos hempty]
    exact .ok _
  have hne : offers ≠ [] ∧ listings ≠ [] := by simpa using hempty
  cases hw : sharedWindow? (offers ++ listings) with
  | none =>
    unfold crossing
    rw [if_neg hempty]
    dsimp only
    rw [hw]
    exact .ok _
  | some window =>
    obtain ⟨first, last⟩ := window
    rw [crossing_eq hne.1 hne.2 hw]
    refine FailsOnly.bind ?_ fun t _ => ?_
    · refine (hspread first).bind fun below hfirst => ?_
      split
      · exact .ok _
      · next hbelow =>
        split
        · exact .ok _
        · next hends =>
          refine (hspread last).bind fun above hlast => ?_
          split
          · exact .ok _
          · next habove =>
            obtain ⟨hproduct, hrise⟩ := hsolve (sharedWindow?_eq_some hw) hends hfirst hlast
            exact (solve_failsOnly hspread (by simpa using hbelow) (by simpa using habove)
              hproduct hrise).bind fun _ _ => .ok _
    · cases t with
      | none => exact .ok _
      | some t => exact FailsOnly.bind ((hsum t).bind fun _ _ => .ok _) fun _ _ => .ok _

end PriceRamp

/-! ## Kinds of ramps -/

/-- With up to `n` ramps of the kind `R`, prices and crossings are computed but for such
    failures.  A ramp that is free all the time is of this kind too. -/
structure Tame (E : ArithmeticError → Prop) (R : PriceRamp → Prop) (n : Nat) : Prop where
  sumAt : ∀ {ramps : List PriceRamp} (t : UInt64), (∀ r ∈ ramps, R r) → ramps.length ≤ n →
    FailsOnly E (PriceRamp.sumAt ramps t)
  crossing : ∀ {offers listings : List PriceRamp}, (∀ r ∈ offers ++ listings, R r) →
    (offers ++ listings).length ≤ n → FailsOnly E (PriceRamp.crossing offers listings)
  free : ∀ {r : PriceRamp}, R r → R (.constant .zero r.startTime r.endTime)

theorem Tame.priceAt {E : ArithmeticError → Prop} {R : PriceRamp → Prop} {n : Nat}
    (h : Tame E R n) (hn : 1 ≤ n) {r : PriceRamp} (hr : R r) (t : UInt64) :
    FailsOnly E (r.priceAt t) := by
  rw [← PriceRamp.sumAt_singleton]
  exact h.sumAt t (by simpa using hr) hn

namespace PriceRamp

theorem priceAt_failsOnly (r : PriceRamp) (t : UInt64) :
    FailsOnly (· ≠ .divisionByZero) (r.priceAt t) := by
  unfold priceAt
  split
  · exact .ok _
  · next hinside =>
    split
    · exact .ok _
    · -- the window is not empty
      have hduration : (Decimal.ofUInt64 (r.endTime - r.startTime)).coefficient ≠ 0 := by
        show (r.endTime - r.startTime).toNat ≠ 0
        have hlt : r.startTime < r.endTime := by grind
        rw [UInt64.toNat_sub_of_le _ _ (UInt64.le_of_lt hlt)]
        exact Nat.sub_ne_zero_of_lt (UInt64.lt_iff_toNat_lt.1 hlt)
      refine (Decimal.sub_failsOnly _ _).bind fun rise _ =>
        (Decimal.mul_failsOnly _ _).bind fun product _ => ?_
      exact (Decimal.div_failsOnly _ _ hduration).bind fun share _ => Decimal.add_failsOnly _ _

theorem sumAt_failsOnly (ramps : List PriceRamp) (t : UInt64) :
    FailsOnly (· ≠ .divisionByZero) (sumAt ramps t) := by
  unfold sumAt
  generalize Decimal.zero = total
  induction ramps generalizing total with
  | nil => exact .ok _
  | cons r ramps ih =>
    rw [List.foldlM_cons]
    refine FailsOnly.bind ?_ fun total _ => ih total
    exact (priceAt_failsOnly r t).bind fun price _ => Decimal.add_failsOnly _ _

theorem spread_failsOnly (offers listings : List PriceRamp) (t : UInt64) :
    FailsOnly (· ≠ .divisionByZero) (spread offers listings t) :=
  (sumAt_failsOnly offers t).bind fun _ _ =>
    (sumAt_failsOnly listings t).bind fun _ _ => Decimal.sub_failsOnly _ _

end PriceRamp

/-- **Nothing is divided by zero**, whatever the ramps are. -/
theorem tame_overflow (n : Nat) : Tame (· ≠ .divisionByZero) (fun _ => True) n where
  sumAt t _ _ := PriceRamp.sumAt_failsOnly _ t
  crossing _ _ := PriceRamp.crossing_failsOnly (PriceRamp.spread_failsOnly _ _)
    (PriceRamp.sumAt_failsOnly _) fun _ _ _ _ =>
      ⟨Decimal.mul_failsOnly _ _, Decimal.sub_failsOnly _ _⟩
  free _ := trivial

end Matchbook
