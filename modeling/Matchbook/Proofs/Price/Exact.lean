/-
  Crossings and the exact numbers.

  * `crossing_deal`: nothing is divided by zero, and a crossing is a shared time at which the
    offers' sum is not the smaller number, at the listings' sum;
  * `line`, `level`: the straight line of a ramp, and the sum of such lines; a level is straight
    too (`level_straight`), so it is at least zero from some time on (`nonneg_iff_ceil_le`);
  * `Exactly x v`: `x` is computed, and not rounded; `Straight`: so is all that is added up
    and compared at a time;
  * `exists_offset_near`: the offset of the crossing is rounded, but not past a whole number,
    so that it is the right millisecond or the one before, after which the next one is tried
    (`firstPaid_eq`);
  * `crossing_earliest`: if only the offset is rounded, the crossing is the first millisecond
    at which the offers pay.
-/
import Mathlib.Tactic.LinearCombination
import Matchbook.Proofs.Decimal.Operations
import Matchbook.Proofs.Price.Scan
import Matchbook.Proofs.Price.Tame

namespace Matchbook

namespace PriceRamp

open Decimal (Rounds)

variable {offers listings ramps : List PriceRamp} {first last t : UInt64}

/-! ## The deal -/

/-- **A crossing is a deal**, and nothing is divided by zero: the time lies in all windows,
    the offers' sum is not the smaller number, and the price is the listings' sum. -/
theorem crossing_deal (offers listings : List PriceRamp) :
    crossing offers listings ≠ .error .divisionByZero ∧
    ∀ d, crossing offers listings = .ok (some d) → offers ≠ [] ∧ listings ≠ [] ∧
      (∀ r ∈ offers ++ listings, r.contains d.timestamp = true) ∧
      sumAt listings d.timestamp = .ok d.price ∧
      ∃ paid, sumAt offers d.timestamp = .ok paid ∧ d.price.value ≤ paid.value := by
  constructor
  · intro herror
    have htame := tame_overflow (offers ++ listings).length
    exact htame.crossing (fun _ _ => trivial) le_rfl _ herror rfl
  · intro d hd
    have hne : offers ≠ [] ∧ listings ≠ [] := by
      by_contra hempty
      have hempty : (offers.isEmpty || listings.isEmpty) = true := by
        simpa [-not_and, not_and_or] using hempty
      rw [crossing, if_pos hempty] at hd
      cases hd
    obtain ⟨hshared, ⟨paid, asked, hpaid, hasked, hle⟩, hprice⟩ := crossing_spec hne.1 hne.2 hd
    cases hasked.symm.trans hprice
    exact ⟨hne.1, hne.2, shared_iff_contains.1 hshared, hprice, paid, hpaid,
      Decimal.compare_isLE_iff_value_le.1 hle⟩

/-- A rising offer and a flat one, over windows of their own, meet a listing at three in the
    seventh millisecond. -/
theorem crossing_deal_bundle :
    let offers := [⟨.zero, .ofUInt64 3, 0, 10⟩, constant (.ofUInt64 1) 5 20]
    let listings := [constant (.ofUInt64 3) 0 8]
    crossing offers listings = .ok (some ⟨.ofUInt64 3, 7⟩) ∧
      ∃ paid, sumAt offers 7 = .ok paid ∧ (Decimal.ofUInt64 3).value ≤ paid.value := by
  intro offers listings
  have hw : sharedWindow? (offers ++ listings) = some (5, 8) := by decide
  have h : crossing offers listings = .ok (some ⟨.ofUInt64 3, 7⟩) := by
    rw [crossing_eq (by simp [offers]) (by simp [listings]) hw]
    exact toOption_eq_some_iff.1 (by decide +kernel)
  obtain ⟨-, -, -, -, hpaid⟩ := (crossing_deal offers listings).2 _ h
  exact ⟨h, hpaid⟩

/-! ## Straight lines -/

/-- The straight line of a ramp; a window of a single time is at the start price. -/
def line (r : PriceRamp) (t : UInt64) : ℚ :=
  r.startPrice.value + (r.endPrice.value - r.startPrice.value) *
    (t.toNat - r.startTime.toNat) / (r.endTime.toNat - r.startTime.toNat)

/-- The sum of the lines. -/
def level (ramps : List PriceRamp) (t : UInt64) : ℚ := (ramps.map fun r => r.line t).sum

/-- What the lines of the offers are above those of the listings. -/
def margin (offers listings : List PriceRamp) (t : UInt64) : ℚ :=
  level offers t - level listings t

/-- Levels are straight: each of them is a mean of two others. -/
theorem level_straight (ramps : List PriceRamp) (a b t : UInt64) :
    level ramps t * (b.toNat - a.toNat) =
      level ramps a * (b.toNat - t.toNat) + level ramps b * (t.toNat - a.toNat) := by
  induction ramps with
  | nil => simp [level]
  | cons r ramps ih =>
    have hline : line r t * (b.toNat - a.toNat) =
        line r a * (b.toNat - t.toNat) + line r b * (t.toNat - a.toNat) := by
      unfold line
      ring
    simp only [level, List.map_cons, List.sum_cons] at ih ⊢
    linear_combination ih + hline

theorem margin_straight (offers listings : List PriceRamp) (a b t : UInt64) :
    margin offers listings t * (b.toNat - a.toNat) =
      margin offers listings a * (b.toNat - t.toNat) +
        margin offers listings b * (t.toNat - a.toNat) := by
  unfold margin
  linear_combination level_straight offers a b t - level_straight listings a b t

/-- A line that is below zero at both ends is so between them. -/
theorem margin_neg (ht : first ≤ t ∧ t ≤ last) (hlt : first < last)
    (hfirst : margin offers listings first < 0) (hlast : margin offers listings last < 0) :
    margin offers listings t < 0 := by
  have hstart : (first.toNat : ℚ) ≤ t.toNat := by exact_mod_cast UInt64.le_iff_toNat_le.1 ht.1
  have hend : (t.toNat : ℚ) ≤ last.toNat := by exact_mod_cast UInt64.le_iff_toNat_le.1 ht.2
  have hlength : (first.toNat : ℚ) < last.toNat := by exact_mod_cast UInt64.lt_iff_toNat_lt.1 hlt
  have hstraight := margin_straight offers listings first last t
  by_contra hpos
  have hpos := mul_nonneg (not_lt.1 hpos) (sub_nonneg.2 hlength.le)
  -- one of the two parts is not empty
  rcases hend.lt_or_eq with hlt | heq
  · have := mul_neg_of_neg_of_pos hfirst (sub_pos.2 hlt)
    have := mul_nonpos_of_nonpos_of_nonneg hlast.le (sub_nonneg.2 hstart)
    linarith
  · have := mul_neg_of_neg_of_pos hlast (sub_pos.2 hlength)
    rw [heq, sub_self, mul_zero] at hstraight
    linarith

/-- The zero of the margin, counted from `first`. -/
def zeroOf (offers listings : List PriceRamp) (first last : UInt64) : ℚ :=
  (last.toNat - first.toNat) * -margin offers listings first /
    (margin offers listings last - margin offers listings first)

theorem zeroOf_nonneg (hle : first ≤ last) (hbelow : margin offers listings first < 0)
    (habove : 0 ≤ margin offers listings last) : 0 ≤ zeroOf offers listings first last := by
  have hlength : (first.toNat : ℚ) ≤ last.toNat := by exact_mod_cast UInt64.le_iff_toNat_le.1 hle
  exact div_nonneg (mul_nonneg (by linarith) (by linarith)) (by linarith)

/-- **Where a line rises from below zero** it is at least zero from its zero on. -/
theorem nonneg_iff_ceil_le (hbelow : margin offers listings first < 0)
    (habove : 0 ≤ margin offers listings last) (hlt : first < last) (ht : first ≤ t) :
    0 ≤ margin offers listings t ↔
      first.toNat + ⌈zeroOf offers listings first last⌉₊ ≤ t.toNat := by
  have hlength : (0 : ℚ) < last.toNat - first.toNat := by
    rw [sub_pos]
    exact_mod_cast UInt64.lt_iff_toNat_lt.1 hlt
  have hrise : 0 < margin offers listings last - margin offers listings first := by linarith
  have hle := UInt64.le_iff_toNat_le.1 ht
  rw [← Nat.le_sub_iff_add_le' hle, Nat.ceil_le, zeroOf, div_le_iff₀ hrise, Nat.cast_sub hle,
    ← mul_nonneg_iff_of_pos_right hlength, margin_straight offers listings first last t]
  constructor <;> intro h <;> linarith

/-! ## Exact computations -/

/-- The computation has this number as its result. -/
def Exactly (x : Except ArithmeticError Decimal) (v : ℚ) : Prop := ∃ d, x = .ok d ∧ d.value = v

theorem Exactly.value_eq {x : Except ArithmeticError Decimal} {v : ℚ} {d : Decimal}
    (h : Exactly x v) (hd : x = .ok d) : d.value = v := by
  obtain ⟨d', hd', hvalue⟩ := h
  cases hd.symm.trans hd'
  exact hvalue

/-- Prices are those of the lines, and are added up without rounding. -/
def AddsUp (t : UInt64) : Decimal → List PriceRamp → Prop
  | _, [] => True
  | total, r :: ramps => ∃ price next, r.priceAt t = .ok price ∧ price.value = line r t ∧
      total.add price = .ok next ∧ next.value = total.value + price.value ∧ AddsUp t next ramps

theorem AddsUp.foldlM : ∀ {ramps : List PriceRamp} {total : Decimal}, AddsUp t total ramps →
    Exactly (ramps.foldlM (fun total ramp => do total.add (← ramp.priceAt t)) total)
      (total.value + level ramps t)
  | [], total, _ => ⟨total, rfl, by simp [level]⟩
  | r :: ramps, total, ⟨price, next, hprice, hline, hnext, hvalue, h⟩ => by
    obtain ⟨p, hp, hpvalue⟩ := h.foldlM
    refine ⟨p, ?_, ?_⟩
    · rw [List.foldlM_cons, hprice, ok_bind, hnext, ok_bind]
      exact hp
    · rw [hpvalue, hvalue, hline, level, level, List.map_cons, List.sum_cons, add_assoc]

/-- A sum of prices is the level. -/
theorem AddsUp.sumAt (h : AddsUp t .zero ramps) : Exactly (sumAt ramps t) (level ramps t) := by
  have hsum := h.foldlM
  rwa [Decimal.value_zero, zero_add] at hsum

/-- At this time no price, sum or difference is rounded. -/
structure Straight (offers listings : List PriceRamp) (t : UInt64) : Prop where
  paid : AddsUp t .zero offers
  asked : AddsUp t .zero listings
  difference : ∀ {paid asked}, sumAt offers t = .ok paid → sumAt listings t = .ok asked →
    Exactly (paid.sub asked) (paid.value - asked.value)

/-- The spread is the margin. -/
theorem Straight.spread (h : Straight offers listings t) :
    Exactly (spread offers listings t) (margin offers listings t) := by
  obtain ⟨paid, hpaid, hpaidValue⟩ := h.paid.sumAt
  obtain ⟨asked, hasked, haskedValue⟩ := h.asked.sumAt
  obtain ⟨gap, hgap, hgapValue⟩ := h.difference hpaid hasked
  refine ⟨gap, ?_, ?_⟩
  · rw [PriceRamp.spread, hpaid, ok_bind, hasked, ok_bind]
    exact hgap
  · rw [hgapValue, hpaidValue, haskedValue, margin]

theorem Straight.pays_iff (h : Straight offers listings t) :
    Pays offers listings t ↔ 0 ≤ margin offers listings t := by
  obtain ⟨gap, hgap, hvalue⟩ := h.spread
  rw [PriceRamp.pays_iff hgap, gap.isBelowZero_eq_false_iff, hvalue]

/-! ## Scans -/

theorem IsFirst.scans (h : IsFirst offers listings t) : Scans offers listings (some t) where
  found t' := by
    rw [Option.some.injEq]
    exact ⟨fun heq => heq ▸ h, h.eq⟩
  missed := iff_of_false nofun fun hnone => hnone t h.shared h.pays

theorem scans_none (h : ∀ t, Shared (offers ++ listings) t → ¬ Pays offers listings t) :
    Scans offers listings none where
  found t := iff_of_false nofun fun hfirst => h t hfirst.shared hfirst.pays
  missed := iff_of_true rfl h

/-! ## The millisecond -/

/-- A time that is moved on within the window. -/
theorem min_addClamped_eq {a b c : UInt64} (hc : c.toNat = a.toNat + b.toNat) (hle : c ≤ last) :
    min (addClamped a b) last = c := by
  rw [← UInt64.toNat_inj, toNat_min_addClamped, ← hc]
  exact Nat.min_eq_left (UInt64.le_iff_toNat_le.1 hle)

/-- **The offset is the right one or one less**, rounded as it is. -/
theorem exists_offset_near {z : ℚ} {offset : Decimal} (hz : 0 ≤ z) (hle : ⌈z⌉₊ < UInt64.size)
    (h : Rounds z offset.value) : ∃ c : UInt64, offset.ceil.toUInt64? = some c ∧
      c.toNat ≤ ⌈z⌉₊ ∧ ⌈z⌉₊ ≤ c.toNat + 1 := by
  have hfits : ∀ k ≤ ⌈z⌉₊, Rounds k k := fun k hk =>
    Decimal.rounds_natCast (Nat.lt_of_le_of_lt hk (Nat.lt_trans hle (by decide)))
  have hhigh : ⌈offset.value⌉₊ ≤ ⌈z⌉₊ :=
    Nat.ceil_le.2 (h.mono (hfits _ le_rfl) (Nat.le_ceil z))
  have hsize : ⌈offset.value⌉₊ < UInt64.size := Nat.lt_of_le_of_lt hhigh hle
  refine ⟨.ofNat ⌈offset.value⌉₊, by rw [Decimal.ceil_toUInt64? (h.nonneg hz), if_pos hsize], ?_⟩
  rw [UInt64.toNat_ofNat_of_lt' hsize]
  refine ⟨hhigh, ?_⟩
  cases hm : ⌈z⌉₊ with
  | zero => exact Nat.zero_le _
  | succ m =>
    -- what is above a whole number is not rounded below it
    have hlow : (m : ℚ) ≤ offset.value :=
      (hfits m (by omega)).mono h (Nat.lt_ceil.1 (by omega)).le
    exact Nat.succ_le_succ (by exact_mod_cast hlow.trans (Nat.le_ceil _))

section

variable (hstraight : ∀ t, Shared (offers ++ listings) t → Straight offers listings t)
include hstraight

/-- The first time at which the offers pay is found, at once or in the second attempt. -/
theorem firstPaid_eq (hfirst : IsFirst offers listings t) {candidate : UInt64}
    (hle : t ≤ last) (hshared : Shared (offers ++ listings) candidate)
    (hcandidate : candidate.toNat ≤ t.toNat) (hnext : t.toNat ≤ candidate.toNat + 1) :
    firstPaid offers listings last [candidate, min (addClamped candidate 1) last] = .ok t := by
  have hpaid : ∀ times, firstPaid offers listings last (t :: times) = .ok t := by
    intro times
    obtain ⟨gap, hgap, -⟩ := (hstraight t hfirst.shared).spread
    rw [firstPaid, hgap, ok_bind, (pays_iff hgap).1 hfirst.pays]
    rfl
  rcases Nat.lt_or_eq_of_le hcandidate with hlt | heq
  · -- a millisecond early
    obtain ⟨gap, hgap, -⟩ := (hstraight candidate hshared).spread
    have hneg := hfirst.not_before candidate (UInt64.lt_iff_toNat_lt.2 hlt) hshared
    rw [pays_iff hgap, Bool.not_eq_false] at hneg
    have hmin : min (addClamped candidate 1) last = t := min_addClamped_eq
      (by rw [UInt64.toNat_one]; omega) hle
    rw [firstPaid, hgap, ok_bind, if_pos hneg, hmin]
    exact hpaid []
  · rw [UInt64.toNat_inj.1 heq]
    exact hpaid _

/-- **The first time at which the offers pay** is the zero of the margin, rounded up. -/
theorem isFirst_zeroOf (hw : IsWindow (offers ++ listings) first last) (hlt : first < last)
    (hbelow : margin offers listings first < 0) (habove : 0 ≤ margin offers listings last) :
    ∃ t, t.toNat = first.toNat + ⌈zeroOf offers listings first last⌉₊ ∧
      IsFirst offers listings t := by
  have hpaysIff : ∀ t, Shared (offers ++ listings) t → (Pays offers listings t ↔
      first.toNat + ⌈zeroOf offers listings first last⌉₊ ≤ t.toNat) := fun t ht => by
    rw [(hstraight t ht).pays_iff,
      nonneg_iff_ceil_le hbelow habove hlt (hw.shared_iff.1 ht).1]
  have hlast := (nonneg_iff_ceil_le hbelow habove hlt hw.le).1 habove
  have htime : (UInt64.ofNat (first.toNat + ⌈zeroOf offers listings first last⌉₊)).toNat =
      first.toNat + ⌈zeroOf offers listings first last⌉₊ :=
    UInt64.toNat_ofNat_of_lt' (Nat.lt_of_le_of_lt hlast last.toNat_lt)
  generalize UInt64.ofNat (first.toNat + ⌈zeroOf offers listings first last⌉₊) = t at htime
  have hshared : Shared (offers ++ listings) t := by
    rw [hw.shared_iff, UInt64.le_iff_toNat_le, UInt64.le_iff_toNat_le]
    omega
  refine ⟨t, htime, hshared, (hpaysIff t hshared).2 htime.ge, fun t' hlt ht' hpays => ?_⟩
  have := (hpaysIff t' ht').1 hpays
  have := UInt64.lt_iff_toNat_lt.1 hlt
  omega

/-- **Solving** finds the first time at which the offers pay. -/
theorem solve_eq (hw : IsWindow (offers ++ listings) first last) {below above : Decimal}
    (hbelow : spread offers listings first = .ok below) (hneg : below.isBelowZero = true)
    (habove : spread offers listings last = .ok above) (hpos : above.isBelowZero = false)
    (hproduct : Exactly ((Decimal.ofUInt64 (last - first)).mul below.neg)
      ((Decimal.ofUInt64 (last - first)).value * below.neg.value))
    (hrise : Exactly (above.sub below) (above.value - below.value)) :
    ∃ t, solve offers listings first last below above = .ok t ∧ IsFirst offers listings t := by
  have hbelowValue := (hstraight first hw.shared_first).spread.value_eq hbelow
  have haboveValue := (hstraight last hw.shared_last).spread.value_eq habove
  have hmarginNeg : margin offers listings first < 0 :=
    hbelowValue ▸ (below.isBelowZero_iff_value_neg).1 hneg
  have hmarginPos : 0 ≤ margin offers listings last :=
    haboveValue ▸ (above.isBelowZero_eq_false_iff).1 hpos
  have hlt : first < last := by
    refine UInt64.lt_of_le_of_ne hw.le ?_
    rintro rfl
    exact absurd hmarginPos (not_le.2 hmarginNeg)
  obtain ⟨t, ht, hfirst⟩ := isFirst_zeroOf hstraight hw hlt hmarginNeg hmarginPos
  refine ⟨t, ?_, hfirst⟩
  obtain ⟨product, hproduct, hproductValue⟩ := hproduct
  obtain ⟨rise, hrise, hriseValue⟩ := hrise
  obtain ⟨offset, hoffset⟩ := exists_offset hneg hpos hproduct hrise
  have hrounds := Decimal.div_rounds hoffset
  rw [hproductValue, hriseValue, Decimal.value_neg, Decimal.value_ofUInt64, hbelowValue,
    haboveValue, UInt64.toNat_sub_of_le _ _ hw.le,
    Nat.cast_sub (UInt64.le_iff_toNat_le.1 hw.le)] at hrounds
  have htlast := (hw.shared_iff.1 hfirst.shared).2
  have hsize : t.toNat < UInt64.size := t.toNat_lt
  obtain ⟨c, hc, hcle, hlec⟩ := exists_offset_near (z := zeroOf offers listings first last)
    (zeroOf_nonneg hw.le hmarginNeg hmarginPos) (by omega) hrounds
  have hcandidate : (UInt64.ofNat (first.toNat + c.toNat)).toNat = first.toNat + c.toNat :=
    UInt64.toNat_ofNat_of_lt' (by omega)
  generalize UInt64.ofNat (first.toNat + c.toNat) = candidate at hcandidate
  have hle : candidate ≤ last :=
    UInt64.le_trans (UInt64.le_iff_toNat_le.2 (by omega)) htlast
  have hbehind : first ≤ candidate := UInt64.le_iff_toNat_le.2 (by omega)
  rw [solve, hproduct, ok_bind, hrise, ok_bind, hoffset, ok_bind, hc, Option.getD_some,
    min_addClamped_eq hcandidate hle]
  exact firstPaid_eq hstraight hfirst htlast (hw.shared_iff.2 ⟨hbehind, hle⟩) (by omega) (by omega)

/-- What is found between the ends of the window is what a scan finds. -/
theorem betweenEnds_scans (hw : IsWindow (offers ++ listings) first last)
    (hsolve : ∀ {below above}, spread offers listings first = .ok below →
      spread offers listings last = .ok above → below.isBelowZero = true →
      above.isBelowZero = false →
        Exactly ((Decimal.ofUInt64 (last - first)).mul below.neg)
          ((Decimal.ofUInt64 (last - first)).value * below.neg.value) ∧
        Exactly (above.sub below) (above.value - below.value)) :
    ∃ r, betweenEnds offers listings first last = .ok r ∧ Scans offers listings r := by
  obtain ⟨below, hbelow, hbelowValue⟩ := (hstraight first hw.shared_first).spread
  obtain ⟨above, habove, haboveValue⟩ := (hstraight last hw.shared_last).spread
  rw [betweenEnds, hbelow, ok_bind]
  cases hneg : below.isBelowZero with
  | false =>
    -- the offers pay from the start
    refine ⟨some first, rfl, IsFirst.scans ⟨hw.shared_first, (pays_iff hbelow).2 hneg, ?_⟩⟩
    intro t hlt ht
    exact absurd (hw.shared_iff.1 ht).1 (UInt64.not_le.2 hlt)
  | true =>
    rw [below.isBelowZero_iff_value_neg, hbelowValue] at hneg
    by_cases heq : first = last
    · refine ⟨none, by rw [if_pos heq]; rfl, scans_none fun t ht => ?_⟩
      rw [(hstraight t ht).pays_iff, not_le]
      obtain ⟨hle, hge⟩ := hw.shared_iff.1 ht
      rwa [UInt64.le_antisymm (heq ▸ hge) hle]
    · rw [if_neg (by simp), if_neg heq, habove, ok_bind]
      cases hpos : above.isBelowZero with
      | true =>
        rw [above.isBelowZero_iff_value_neg, haboveValue] at hpos
        refine ⟨none, rfl, scans_none fun t ht => ?_⟩
        rw [(hstraight t ht).pays_iff, not_le]
        exact margin_neg (hw.shared_iff.1 ht) (UInt64.lt_of_le_of_ne hw.le heq) hneg hpos
      | false =>
        rw [← hbelowValue, ← below.isBelowZero_iff_value_neg] at hneg
        obtain ⟨hproduct, hrise⟩ := hsolve hbelow habove hneg hpos
        obtain ⟨t, ht, hfirst⟩ := solve_eq hstraight hw hbelow hneg habove hpos hproduct hrise
        rw [if_neg Bool.false_ne_true, ht]
        exact ⟨some t, rfl, hfirst.scans⟩

end

/-- **If only the offset is rounded, the crossing is the earliest millisecond**: with prices,
    sums and differences exact at every shared time, and the product and the difference that
    the offset is the quotient of, there is a crossing exactly if the offers pay at a shared
    time, and then it is the first of these. -/
theorem crossing_earliest (ho : offers ≠ []) (hl : listings ≠ [])
    (hstraight : ∀ t, Shared (offers ++ listings) t → Straight offers listings t)
    (hsolve : ∀ {first last below above}, sharedWindow? (offers ++ listings) = some (first, last) →
      spread offers listings first = .ok below → spread offers listings last = .ok above →
      below.isBelowZero = true → above.isBelowZero = false →
        Exactly ((Decimal.ofUInt64 (last - first)).mul below.neg)
          ((Decimal.ofUInt64 (last - first)).value * below.neg.value) ∧
        Exactly (above.sub below) (above.value - below.value)) :
    ∃ r, crossing offers listings = .ok r ∧ Scans offers listings (r.map (·.timestamp)) := by
  cases hw : sharedWindow? (offers ++ listings) with
  | none =>
    have hnone := not_shared_of_sharedWindow? (by simp [ho]) hw
    refine ⟨none, ?_, scans_none fun t ht => absurd ht (hnone t)⟩
    rw [crossing, if_neg (by simp [ho, hl])]
    dsimp only
    rw [hw]
  | some window =>
    obtain ⟨first, last⟩ := window
    obtain ⟨t, ht, hscans⟩ := betweenEnds_scans hstraight (sharedWindow?_eq_some hw) (hsolve hw)
    rw [crossing_eq ho hl hw, ht, ok_bind]
    cases t with
    | none => exact ⟨none, rfl, hscans⟩
    | some t =>
      obtain ⟨price, hprice, -⟩ := (hstraight t ((hscans.found t).1 rfl).shared).asked.sumAt
      dsimp only
      rw [dealAt, hprice]
      exact ⟨some ⟨price, t⟩, rfl, hscans⟩

/-- An offer that rises to six within two milliseconds. -/
def toSix : PriceRamp := ⟨.zero, .ofUInt64 6, 0, 2⟩

/-- Three, and the least price above zero: what the offer reaches just after a millisecond. -/
def pastThree : Decimal :=
  { leastPrice with coefficient := 30000000000000000000000000001, coefficient_lt := by decide }

theorem value_pastThree : pastThree.value = 3 + 1 / 10 ^ 28 := by
  norm_num [pastThree, leastPrice, Decimal.value, Decimal.signed]

/-- What the offer is above the listing in the end. -/
def nearlyThree : Decimal :=
  { leastPrice with coefficient := 29999999999999999999999999999, coefficient_lt := by decide }

theorem value_nearlyThree : nearlyThree.value = 3 - 1 / 10 ^ 28 := by
  norm_num [nearlyThree, leastPrice, Decimal.value, Decimal.signed]

theorem toSix_straight (ht : t = 0 ∨ t = 1 ∨ t = 2) :
    Straight [toSix] [constant pastThree 0 2] t := by
  have hthree : (Decimal.ofUInt64 3).value = 3 := Decimal.value_ofUInt64 3
  have hsix : (Decimal.ofUInt64 6).value = 6 := Decimal.value_ofUInt64 6
  have hprice : toSix.priceAt t = .ok (.ofUInt64 (3 * t)) := by
    rcases ht with rfl | rfl | rfl <;> exact toOption_eq_some_iff.1 (by decide +kernel)
  have hline : (Decimal.ofUInt64 (3 * t)).value = toSix.line t := by
    have htime : (1 : UInt64).toNat = 1 ∧ (2 : UInt64).toNat = 2 := ⟨rfl, rfl⟩
    rcases ht with rfl | rfl | rfl
    · norm_num [line, toSix, Decimal.value_ofUInt64, Decimal.value_zero]
    · show (Decimal.ofUInt64 3).value = _
      norm_num [line, toSix, hthree, hsix, Decimal.value_zero, htime]
    · show (Decimal.ofUInt64 6).value = _
      norm_num [line, toSix, hsix, Decimal.value_zero, htime]
  have hflat : (constant pastThree 0 2).priceAt t = .ok pastThree := by
    rcases ht with rfl | rfl | rfl <;> exact toOption_eq_some_iff.1 (by decide +kernel)
  have hzero : ∀ d : Decimal, d.value = Decimal.zero.value + d.value := fun d => by
    rw [Decimal.value_zero, zero_add]
  refine ⟨⟨_, _, hprice, hline, rfl, hzero _, trivial⟩,
    ⟨_, _, hflat, by simp [line, constant], rfl, hzero _, trivial⟩, fun hpaid hasked => ?_⟩
  rw [sumAt_singleton] at hpaid hasked
  cases hprice.symm.trans hpaid
  cases hflat.symm.trans hasked
  rcases ht with rfl | rfl | rfl
  · have hzero : (Decimal.ofUInt64 (3 * 0)).value = 0 := Decimal.value_zero
    exact ⟨pastThree.neg, toOption_eq_some_iff.1 (by decide +kernel),
      by rw [Decimal.value_neg, hzero, zero_sub]⟩
  · refine ⟨⟨true, 1, 28, by decide, by decide⟩, toOption_eq_some_iff.1 (by decide +kernel), ?_⟩
    rw [show (Decimal.ofUInt64 (3 * 1)).value = 3 from hthree, value_pastThree]
    norm_num [Decimal.value, Decimal.signed]
  · refine ⟨nearlyThree, toOption_eq_some_iff.1 (by decide +kernel), ?_⟩
    rw [show (Decimal.ofUInt64 (3 * 2)).value = 6 from hsix, value_pastThree, value_nearlyThree]
    norm_num

/-- The offset is rounded to one millisecond, at which the least price is still missing, and
    the next one is the first at which the offer pays. -/
theorem crossing_earliest_next :
    crossing [toSix] [constant pastThree 0 2] = .ok (some ⟨pastThree, 2⟩) ∧
      Scans [toSix] [constant pastThree 0 2] (some 2) := by
  have hw : sharedWindow? ([toSix] ++ [constant pastThree 0 2]) = some (0, 2) := by decide
  have h : crossing [toSix] [constant pastThree 0 2] = .ok (some ⟨pastThree, 2⟩) := by
    rw [crossing_eq (by simp) (by simp) hw]
    exact toOption_eq_some_iff.1 (by decide +kernel)
  suffices hearliest : ∃ r, crossing [toSix] [constant pastThree 0 2] = .ok r ∧
      Scans [toSix] [constant pastThree 0 2] (r.map (·.timestamp)) by
    obtain ⟨r, hr, hscans⟩ := hearliest
    cases h.symm.trans hr
    exact ⟨h, hscans⟩
  refine crossing_earliest (by simp) (by simp) (fun t ht => toSix_straight ?_) ?_
  · have hle := UInt64.le_iff_toNat_le.1 ((sharedWindow?_eq_some hw).shared_iff.1 ht).2
    simp only [← UInt64.toNat_inj]
    change t.toNat ≤ 2 at hle
    show t.toNat = 0 ∨ t.toNat = 1 ∨ t.toNat = 2
    omega
  · intro first last below above hw' hbelow habove _ _
    cases hw.symm.trans hw'
    have hbelow' : spread [toSix] [constant pastThree 0 2] 0 = .ok pastThree.neg :=
      toOption_eq_some_iff.1 (by decide +kernel)
    have habove' : spread [toSix] [constant pastThree 0 2] 2 = .ok nearlyThree :=
      toOption_eq_some_iff.1 (by decide +kernel)
    cases hbelow.symm.trans hbelow'
    cases habove.symm.trans habove'
    refine ⟨⟨⟨false, 60000000000000000000000000002, 28, by decide, by decide⟩,
      toOption_eq_some_iff.1 (by decide +kernel), ?_⟩,
      ⟨false, 60000000000000000000000000000, 28, by decide, by decide⟩,
      toOption_eq_some_iff.1 (by decide +kernel), ?_⟩
    · have htwo : (Decimal.ofUInt64 (2 - 0)).value = 2 := Decimal.value_ofUInt64 2
      rw [htwo, Decimal.value_neg, Decimal.value_neg, value_pastThree]
      norm_num [Decimal.value, Decimal.signed]
    · rw [Decimal.value_neg, value_pastThree, value_nearlyThree]
      norm_num [Decimal.value, Decimal.signed]

end PriceRamp
end Matchbook
