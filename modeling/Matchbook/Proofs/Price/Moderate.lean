/-
  Ramps with which nothing overflows.

  * `Moderate P D`: the prices of a ramp lie between `-P` and `P`, and its window is
    shorter than `D` milliseconds;
  * `priceAt_within`, `sumAt_within`: how far rounding can take the prices of such ramps,
    and their sums;
  * `tame_moderate`: as long as the product of the prices, of their number and of the time
    is below the bound for coefficients, no computation fails.
-/
import Matchbook.Proofs.Price.Tame

namespace Matchbook

namespace PriceRamp

/-- The prices are `P` at most, below or above zero, and the window is shorter than
    `D`. -/
structure Moderate (P D : Nat) (r : PriceRamp) : Prop where
  start_within : r.startPrice.Within P
  end_within : r.endPrice.Within P
  short : r.endTime.toNat < r.startTime.toNat + D

instance (P D : Nat) (r : PriceRamp) : Decidable (r.Moderate P D) :=
  decidable_of_iff (r.startPrice.Within P ∧ r.endPrice.Within P ∧
    r.endTime.toNat < r.startTime.toNat + D)
    ⟨fun ⟨hs, he, ht⟩ => ⟨hs, he, ht⟩, fun ⟨hs, he, ht⟩ => ⟨hs, he, ht⟩⟩

variable {P D n : Nat} {r : PriceRamp}

/-- A ramp that is free is moderate if its window is. -/
theorem Moderate.free (h : r.Moderate P D) :
    (constant .zero r.startTime r.endTime).Moderate P D :=
  ⟨Decimal.within_zero P, Decimal.within_zero P, h.short⟩

section

variable (hD : 0 < D)
include hD

/-- **A price** is computed, and not taken further than to three times the bound. -/
theorem priceAt_within (hbound : 3 * P * D < Decimal.coefficientBound) (h : r.Moderate P D)
    (t : UInt64) : ∃ p, r.priceAt t = .ok p ∧ p.Within (3 * P) := by
  have hP : 3 * P < Decimal.coefficientBound :=
    Nat.lt_of_le_of_lt (Nat.le_mul_of_pos_right _ hD) hbound
  unfold priceAt
  split
  · exact ⟨_, rfl, h.start_within.mono (by omega)⟩
  · next hafter =>
    split
    · exact ⟨_, rfl, h.end_within.mono (by omega)⟩
    · next hbefore =>
      simp only [not_or, UInt64.not_le] at hafter hbefore
      have helapsed := UInt64.toNat_sub_of_le _ _ (UInt64.le_of_lt hafter.1)
      have hduration := UInt64.toNat_sub_of_le _ _ (UInt64.le_of_lt hafter.2)
      have hstart := UInt64.lt_iff_toNat_lt.1 hafter.1
      have hend := UInt64.lt_iff_toNat_lt.1 hbefore
      have hshort := h.short
      have hsmall : (P + P) * (t - r.startTime).toNat < Decimal.coefficientBound := by
        have htwo : P + P ≤ 3 * P := by omega
        have htime : (t - r.startTime).toNat ≤ D := by omega
        exact Nat.lt_of_le_of_lt (Nat.mul_le_mul htwo htime) hbound
      obtain ⟨rise, hrise, hriseWithin⟩ :=
        Decimal.sub_within h.end_within h.start_within (by omega)
      obtain ⟨product, hproduct, hproductWithin⟩ :=
        Decimal.mul_within hriseWithin (Decimal.within_ofUInt64 (t - r.startTime)) hsmall
      -- no more time has passed than there is
      have hquotient : product.coefficient * powerOfTen 0 ≤
          (P + P) * (r.endTime - r.startTime).toNat * powerOfTen product.scale := by
        rw [powerOfTen_zero, Nat.mul_one]
        refine Nat.le_trans hproductWithin (Nat.mul_le_mul_right _ (Nat.mul_le_mul_left _ ?_))
        omega
      obtain ⟨share, hshare, hshareWithin⟩ :=
        Decimal.div_within (b := .ofUInt64 (r.endTime - r.startTime))
          (show (r.endTime - r.startTime).toNat ≠ 0 by omega) hquotient (by omega)
      obtain ⟨p, hp, hpWithin⟩ := Decimal.add_within h.start_within hshareWithin (by omega)
      rw [hrise, ok_bind, hproduct, ok_bind, hshare, ok_bind]
      exact ⟨p, hp, hpWithin.mono (by omega)⟩

/-- Prices are added to what some others add up to. -/
theorem foldlM_within (hbound : 3 * n * P * D < Decimal.coefficientBound) (t : UInt64) :
    ∀ {ramps : List PriceRamp} {total : Decimal} {k : Nat}, (∀ r ∈ ramps, r.Moderate P D) →
      total.Within (3 * P * k) → k + ramps.length ≤ n →
        ∃ p, ramps.foldlM (fun total ramp => do total.add (← ramp.priceAt t)) total = .ok p ∧
          p.Within (3 * P * (k + ramps.length))
  | [], _, _, _, htotal, _ => ⟨_, rfl, htotal⟩
  | r :: ramps, total, k, h, htotal, hlen => by
    obtain ⟨hr, hramps⟩ := List.forall_mem_cons.1 h
    rw [List.length_cons] at hlen ⊢
    have hone : 3 * P * D < Decimal.coefficientBound := by
      refine Nat.lt_of_le_of_lt ?_ hbound
      exact Nat.mul_le_mul_right _ (Nat.mul_le_mul_right _ (by omega))
    have hsum : 3 * P * k + 3 * P < Decimal.coefficientBound := by
      refine Nat.lt_of_le_of_lt ?_ hbound
      calc 3 * P * k + 3 * P = 3 * (k + 1) * P := by ring
        _ ≤ 3 * n * P := Nat.mul_le_mul_right _ (by omega)
        _ ≤ 3 * n * P * D := Nat.le_mul_of_pos_right _ hD
    obtain ⟨price, hprice, hpriceWithin⟩ := priceAt_within hD hone hr t
    obtain ⟨next, hnext, hnextWithin⟩ := Decimal.add_within htotal hpriceWithin hsum
    rw [List.foldlM_cons, hprice, ok_bind, hnext, ok_bind, Nat.add_comm ramps.length 1,
      ← Nat.add_assoc]
    exact foldlM_within hbound t hramps (by rwa [Nat.mul_add, Nat.mul_one]) (by omega)

/-- **A sum of prices** is computed. -/
theorem sumAt_within {ramps : List PriceRamp} (h : ∀ r ∈ ramps, r.Moderate P D)
    (hlen : ramps.length ≤ n) (hbound : 3 * n * P * D < Decimal.coefficientBound) (t : UInt64) :
    ∃ p, sumAt ramps t = .ok p ∧ p.Within (3 * P * ramps.length) := by
  obtain ⟨p, hp, hwithin⟩ := foldlM_within hD hbound t (k := 0) h (Decimal.within_zero _)
    (by rwa [Nat.zero_add])
  exact ⟨p, hp, by rwa [Nat.zero_add] at hwithin⟩

/-- What the offers pay beyond what the listings ask is computed. -/
theorem spread_within {offers listings : List PriceRamp}
    (h : ∀ r ∈ offers ++ listings, r.Moderate P D) (hlen : (offers ++ listings).length ≤ n)
    (hbound : 3 * n * P * D < Decimal.coefficientBound) (t : UInt64) :
    ∃ gap, spread offers listings t = .ok gap ∧ gap.Within (3 * n * P) := by
  rw [List.length_append] at hlen
  obtain ⟨paid, hpaid, hpaidWithin⟩ := sumAt_within hD
    (fun r hr => h r (List.mem_append_left _ hr)) (by omega) hbound t
  obtain ⟨asked, hasked, haskedWithin⟩ := sumAt_within hD
    (fun r hr => h r (List.mem_append_right _ hr)) (by omega) hbound t
  have hle : 3 * P * offers.length + 3 * P * listings.length ≤ 3 * n * P := by
    calc 3 * P * offers.length + 3 * P * listings.length
        = 3 * (offers.length + listings.length) * P := by ring
      _ ≤ 3 * n * P := Nat.mul_le_mul_right _ (Nat.mul_le_mul_left _ hlen)
  have hsmall : 3 * n * P < Decimal.coefficientBound :=
    Nat.lt_of_le_of_lt (Nat.le_mul_of_pos_right _ hD) hbound
  obtain ⟨gap, hgap, hgapWithin⟩ :=
    Decimal.sub_within hpaidWithin haskedWithin (Nat.lt_of_le_of_lt hle hsmall)
  refine ⟨gap, ?_, hgapWithin.mono hle⟩
  rw [spread, hpaid, ok_bind, hasked, ok_bind]
  exact hgap

end

end PriceRamp

/-- **Nothing overflows** with up to `n` moderate ramps. -/
theorem tame_moderate {P D n : Nat} (hD : 0 < D)
    (hbound : 3 * n * P * D < Decimal.coefficientBound) :
    Tame (fun _ => False) (PriceRamp.Moderate P D) n where
  free h := h.free
  sumAt t h hlen := by
    obtain ⟨p, hp, -⟩ := PriceRamp.sumAt_within hD h hlen hbound t
    rw [hp]
    exact .ok _
  crossing {offers listings} h hlen := by
    have hspread := PriceRamp.spread_within hD h hlen hbound
    refine PriceRamp.crossing_failsOnly (fun t => ?_) (fun t => ?_) ?_
    · obtain ⟨gap, hgap, -⟩ := hspread t
      rw [hgap]
      exact .ok _
    · have hlisted : ∀ r ∈ listings, r.Moderate P D := fun r hr => h r (List.mem_append_right _ hr)
      obtain ⟨p, hp, -⟩ := PriceRamp.sumAt_within hD hlisted (Nat.le_trans (by simp) hlen) hbound t
      rw [hp]
      exact .ok _
    · intro first last below above hw hne hbelow habove
      obtain ⟨_, hbelow', hbelowWithin⟩ := hspread first
      obtain ⟨_, habove', haboveWithin⟩ := hspread last
      cases hbelow.symm.trans hbelow'
      cases habove.symm.trans habove'
      -- the window is that of a ramp that starts last, or part of it
      obtain ⟨r, hr, hfirst⟩ := List.mem_map.1 hw.start_mem
      have hend := UInt64.le_iff_toNat_le.1 (hw.le_end r hr)
      have hlt := UInt64.lt_iff_toNat_lt.1 (UInt64.lt_of_le_of_ne hw.le hne)
      have hshort := (h r hr).short
      have htime := UInt64.toNat_sub_of_le _ _ hw.le
      rw [hfirst] at hshort
      have hproduct : (last - first).toNat * (3 * n * P) < Decimal.coefficientBound := by
        rw [Nat.mul_comm]
        exact Nat.lt_of_le_of_lt (Nat.mul_le_mul_left _ (by omega)) hbound
      have hrise : 3 * n * P + 3 * n * P < Decimal.coefficientBound := by
        refine Nat.lt_of_le_of_lt ?_ hbound
        calc 3 * n * P + 3 * n * P = 3 * n * P * 2 := by ring
          _ ≤ 3 * n * P * D := Nat.mul_le_mul_left _ (by omega)
      obtain ⟨product, hproduct, -⟩ :=
        Decimal.mul_within (Decimal.within_ofUInt64 (last - first)) hbelowWithin.neg hproduct
      obtain ⟨rise, hrise, -⟩ := Decimal.sub_within haboveWithin hbelowWithin hrise
      rw [hproduct, hrise]
      exact ⟨.ok _, .ok _⟩

end Matchbook
