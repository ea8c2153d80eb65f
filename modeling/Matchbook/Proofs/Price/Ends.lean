/-
  The crossing from the two ends of the shared window.

  * `timeAfter`: a time of the window, so many milliseconds behind its start, counted in
    whole numbers without bound;
  * `roundedCrossing`: the zero of the straight line between the spreads at the ends, rounded
    as the operations round it, then up to a whole millisecond, or the millisecond behind it;
  * `solve_eq_roundedCrossing`: solving comes to the same, so the bounds of 64 bits that it
    keeps to do not show;
  * `dealFromEnds` looks at the ends of the window alone, and `crossing_from_ends` says that
    the search through the pieces between all starts and ends is no more than that.
-/
import Matchbook.Proofs.Decimal.Operations
import Matchbook.Proofs.Price.Crossing

namespace Matchbook.PriceRamp

variable {offers listings : List PriceRamp} {first last : UInt64}

/-! ## Times of the window -/

/-- The time that is `n` milliseconds behind the first one, or the last one if that is
    earlier. -/
def timeAfter (first last : UInt64) (n : Nat) : UInt64 := .ofNat (min (first.toNat + n) last.toNat)

theorem toNat_timeAfter (first last : UInt64) (n : Nat) :
    (timeAfter first last n).toNat = min (first.toNat + n) last.toNat :=
  UInt64.toNat_ofNat_of_lt' (Nat.lt_of_le_of_lt (Nat.min_le_right _ _) last.toNat_lt)

/-- A wait that is no 64-bit number is as good as that for the end of the window. -/
theorem min_addClamped_ceil {offset : Decimal} (hle : first ≤ last) (hoffset : 0 ≤ offset.value) :
    min (addClamped first (offset.ceil.toUInt64?.getD (last - first))) last =
      timeAfter first last ⌈offset.value⌉₊ := by
  rw [← UInt64.toNat_inj, toNat_min_addClamped, toNat_timeAfter, Decimal.ceil_toUInt64? hoffset]
  split
  · next hsize => rw [Option.getD_some, UInt64.toNat_ofNat_of_lt' hsize]
  · next hlarge =>
    have hlast := last.toNat_lt
    have hsize : UInt64.size = 2 ^ 64 := rfl
    rw [Option.getD_none, UInt64.toNat_sub_of_le _ _ hle]
    omega

theorem min_addClamped_timeAfter (first last : UInt64) (n : Nat) :
    min (addClamped (timeAfter first last n) 1) last = timeAfter first last (n + 1) := by
  rw [← UInt64.toNat_inj, toNat_min_addClamped, toNat_timeAfter, toNat_timeAfter, UInt64.toNat_one]
  omega

/-! ## The rounded crossing -/

/-- The zero of the straight line that rises from `below` at the first time to `above` at the
    last one, rounded by each operation and then up to a whole millisecond.  If the offers do
    not pay then, because of the rounding, they get a millisecond more; else it is the end. -/
def roundedCrossing (offers listings : List PriceRamp) (first last : UInt64)
    (below above : Decimal) : Except ArithmeticError UInt64 := do
  let product ← (Decimal.ofUInt64 (last - first)).mul below.neg
  let rise ← above.sub below
  let offset ← product.div rise
  let candidate := timeAfter first last ⌈offset.value⌉₊
  let gap ← spread offers listings candidate
  if 0 ≤ gap.value then return candidate
  else
    let next := timeAfter first last (⌈offset.value⌉₊ + 1)
    let gap ← spread offers listings next
    if 0 ≤ gap.value then return next else return last

/-- What is tried first is taken if the spread is not negative. -/
theorem firstPaid_cons (t : UInt64) (times : List UInt64) :
    firstPaid offers listings last (t :: times) = (do
      let gap ← spread offers listings t
      if 0 ≤ gap.value then return t else firstPaid offers listings last times) := by
  refine bind_congr_of_ok fun gap _ => ?_
  cases hgap : gap.isBelowZero with
  | true => rw [if_neg (not_le.2 (gap.isBelowZero_iff_value_neg.1 hgap)), if_pos rfl]
  | false =>
    rw [if_pos (gap.isBelowZero_eq_false_iff.1 hgap)]
    rfl

/-- A line that rises from below zero has its zero behind the start, rounded as it is. -/
theorem offset_nonneg {t : UInt64} {below above product rise offset : Decimal}
    (hbelow : below.value < 0) (habove : 0 ≤ above.value)
    (hproduct : (Decimal.ofUInt64 t).mul below.neg = .ok product)
    (hrise : above.sub below = .ok rise) (hoffset : product.div rise = .ok offset) :
    0 ≤ offset.value := by
  have hproductNonneg : 0 ≤ product.value := by
    refine (Decimal.mul_rounds hproduct).nonneg ?_
    rw [Decimal.value_ofUInt64, Decimal.value_neg]
    exact mul_nonneg (Nat.cast_nonneg _) (neg_nonneg.2 hbelow.le)
  have hriseNonneg : 0 ≤ rise.value :=
    (Decimal.sub_rounds hrise).nonneg (sub_nonneg.2 (hbelow.le.trans habove))
  exact (Decimal.div_rounds hoffset).nonneg (div_nonneg hproductNonneg hriseNonneg)

/-- **Solving** a line that rises from below zero gives the rounded crossing. -/
theorem solve_eq_roundedCrossing {below above : Decimal} (hle : first ≤ last)
    (hbelow : below.value < 0) (habove : 0 ≤ above.value) :
    solve offers listings first last below above =
      roundedCrossing offers listings first last below above := by
  refine bind_congr_of_ok fun product hproduct => ?_
  refine bind_congr_of_ok fun rise hrise => ?_
  refine bind_congr_of_ok fun offset hoffset => ?_
  have hnonneg := offset_nonneg hbelow habove hproduct hrise hoffset
  dsimp only
  rw [min_addClamped_ceil hle hnonneg, min_addClamped_timeAfter, firstPaid_cons, firstPaid_cons]
  rfl

/-! ## The two ends -/

/-- The deal as the ends of the window decide it: at the start if the spread is not negative
    there; else there is none if the window is a single time or the spread is negative at the
    end; else it is at the rounded crossing between them. -/
def dealFromEnds (offers listings : List PriceRamp) (first last : UInt64) :
    Except ArithmeticError (Option Crossing) := do
  let below ← spread offers listings first
  if 0 ≤ below.value then return some (← dealAt listings first)
  else if first = last then return none
  else
    let above ← spread offers listings last
    if above.value < 0 then return none
    else
      let t ← roundedCrossing offers listings first last below above
      return some (← dealAt listings t)

/-- The deals are struck at the times that `betweenEnds` gives. -/
theorem crossing_eq_dealFromEnds (ho : offers ≠ []) (hl : listings ≠ [])
    (hw : IsWindow (offers ++ listings) first last) :
    crossing offers listings = dealFromEnds offers listings first last := by
  rw [crossing_eq ho hl hw.sharedWindow?_eq, betweenEnds, bind_assoc]
  refine bind_congr_of_ok fun below _ => ?_
  cases hbelow : below.isBelowZero with
  | false =>
    rw [if_pos (below.isBelowZero_eq_false_iff.1 hbelow)]
    rfl
  | true =>
    rw [below.isBelowZero_iff_value_neg] at hbelow
    rw [if_neg (not_le.2 hbelow), if_neg (by decide)]
    split
    · rfl
    · rw [bind_assoc]
      refine bind_congr_of_ok fun above _ => ?_
      cases habove : above.isBelowZero with
      | true =>
        rw [if_pos (above.isBelowZero_iff_value_neg.1 habove)]
        rfl
      | false =>
        rw [above.isBelowZero_eq_false_iff] at habove
        rw [if_neg (not_lt.2 habove), if_neg (by decide), bind_assoc,
          solve_eq_roundedCrossing hw.le hbelow habove]
        rfl

/-- **The search is a look at two ends**, the latest start and the earliest end of all ramps:
    no ramp starts or ends strictly between them, so no other breakpoint is left, there is one
    piece at most, and the crossing is the deal that the two ends decide, also where a
    computation fails. -/
theorem crossing_from_ends (ho : offers ≠ []) (hl : listings ≠ [])
    (hw : IsWindow (offers ++ listings) first last) :
    (∀ r ∈ offers ++ listings, ∀ t ∈ [r.startTime, r.endTime], ¬ (first < t ∧ t < last)) ∧
    breakpoints (offers ++ listings) first last =
      (if first = last then [first] else [first, last]) ∧
    (segments (breakpoints (offers ++ listings) first last)).length ≤ 1 ∧
    crossing offers listings = dealFromEnds offers listings first last := by
  refine ⟨fun r hr t ht => hw.no_break hr ht, hw.breakpoints_eq, ?_,
    crossing_eq_dealFromEnds ho hl hw⟩
  rw [hw.segments_eq]
  split <;> simp

/-- A rising offer and a flat one that starts later meet two flat listings, one of which ends
    earlier, a third of a millisecond after the 333rd.  Of seven times at which ramps start or
    end, two are left. -/
theorem crossing_from_ends_bundle :
    let offers := [⟨.zero, .ofUInt64 3, 0, 1000⟩, constant (.ofUInt64 1) 200 1500]
    let listings := [constant (.ofUInt64 1) 100 900, constant (.ofUInt64 1) 100 2000]
    IsWindow (offers ++ listings) 200 900 ∧
      breakpoints (offers ++ listings) 200 900 = [200, 900] ∧
      crossing offers listings = dealFromEnds offers listings 200 900 ∧
      dealFromEnds offers listings 200 900 = .ok (some ⟨.ofUInt64 2, 334⟩) := by
  intro offers listings
  have hw : sharedWindow? (offers ++ listings) = some (200, 900) := by decide
  have hwindow := sharedWindow?_eq_some hw
  obtain ⟨-, htimes, -, hcrossing⟩ :=
    crossing_from_ends (by simp [offers]) (by simp [listings]) hwindow
  have h : crossing offers listings = .ok (some ⟨.ofUInt64 2, 334⟩) := by
    rw [crossing_eq (by simp [offers]) (by simp [listings]) hw]
    exact toOption_eq_some_iff.1 (by decide +kernel)
  exact ⟨hwindow, htimes, hcrossing, hcrossing ▸ h⟩

end Matchbook.PriceRamp
