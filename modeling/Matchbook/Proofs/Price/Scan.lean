/-
  The crossing and a scan of every millisecond.

  * `IsFirst` is the first shared time at which the offers pay, and `Scans` says that
    a time is what a look at every shared millisecond finds;
  * `crossing_scans_iff`: what the crossing can miss lies strictly inside the window,
    where the curves are not looked at but solved for;
  * `crossing_passes_by`: rounded curves can reach each other before the straight
    lines do, and then it is missed.
-/
import Matchbook.Proofs.Price.Crossing

namespace Matchbook.PriceRamp

/-- The first shared time at which the offers pay. -/
structure IsFirst (offers listings : List PriceRamp) (t : UInt64) : Prop where
  shared : Shared (offers ++ listings) t
  pays : Pays offers listings t
  not_before : ∀ t' < t, Shared (offers ++ listings) t' → ¬ Pays offers listings t'

theorem IsFirst.eq {offers listings : List PriceRamp} {t t' : UInt64}
    (h : IsFirst offers listings t) (h' : IsFirst offers listings t') : t = t' := by
  refine UInt64.le_antisymm (UInt64.not_lt.1 fun hlt => ?_) (UInt64.not_lt.1 fun hlt => ?_)
  · exact h.not_before t' hlt h'.shared h'.pays
  · exact h'.not_before t hlt h.shared h.pays

/-- The time is what a look at every shared millisecond finds. -/
structure Scans (offers listings : List PriceRamp) (r : Option UInt64) : Prop where
  found : ∀ t, r = some t ↔ IsFirst offers listings t
  missed : r = none ↔ ∀ t, Shared (offers ++ listings) t → ¬ Pays offers listings t

/-- **Crossing and scan**: a crossing is a deal, there is one exactly if the offers
    pay at an end of the shared time, and it is what a scan finds exactly if the
    offers do not pay inside the window before it. -/
theorem crossing_scans_iff {offers listings : List PriceRamp} (ho : offers ≠ [])
    (hl : listings ≠ []) {r : Option Crossing} (h : crossing offers listings = .ok r) :
    (∀ d, r = some d → Shared (offers ++ listings) d.timestamp ∧
      Pays offers listings d.timestamp ∧ sumAt listings d.timestamp = .ok d.price) ∧
    (r = none ↔ ∀ t, Shared (offers ++ listings) t → ¬ Inside (offers ++ listings) t →
      ¬ Pays offers listings t) ∧
    (Scans offers listings (r.map (·.timestamp)) ↔
      ∀ t, Inside (offers ++ listings) t → Pays offers listings t →
        ∃ d, r = some d ∧ d.timestamp ≤ t) := by
  have hdeal : ∀ d, r = some d → Shared (offers ++ listings) d.timestamp ∧
      Pays offers listings d.timestamp ∧ sumAt listings d.timestamp = .ok d.price := by
    rintro d rfl
    exact crossing_spec ho hl h
  refine ⟨hdeal, crossing_eq_none_iff ho hl h, fun hscan t ht hpays => ?_, fun hinside => ?_⟩
  · have hshared : Shared (offers ++ listings) t := fun r hr =>
      ⟨UInt64.le_of_lt (ht r hr).1, UInt64.le_of_lt (ht r hr).2⟩
    cases r with
    | none => exact absurd hpays (hscan.missed.1 rfl t hshared)
    | some d =>
      refine ⟨d, rfl, UInt64.not_lt.1 fun hlt => ?_⟩
      exact ((hscan.found d.timestamp).1 rfl).not_before t hlt hshared hpays
  · -- inside by assumption, at the ends always
    have hle : ∀ t, Shared (offers ++ listings) t → Pays offers listings t →
        ∃ d, r = some d ∧ d.timestamp ≤ t := by
      intro t ht hpays
      by_cases hin : Inside (offers ++ listings) t
      · exact hinside t hin hpays
      · exact le_of_pays_at_end ho hl h ht hin hpays
    cases r with
    | none =>
      have hnone : ∀ t, Shared (offers ++ listings) t → ¬ Pays offers listings t := by
        intro t ht hpays
        obtain ⟨d, hd, -⟩ := hle t ht hpays
        cases hd
      exact ⟨fun t => iff_of_false nofun fun hfirst => hnone t hfirst.shared hfirst.pays,
        iff_of_true rfl hnone⟩
    | some d =>
      obtain ⟨hshared, hpays, -⟩ := hdeal d rfl
      have hfirst : IsFirst offers listings d.timestamp := by
        refine ⟨hshared, hpays, fun t hlt ht hpays => ?_⟩
        obtain ⟨d', hd, hle⟩ := hle t ht hpays
        cases hd
        exact UInt64.not_lt.2 hle hlt
      refine ⟨fun t => ⟨?_, fun ht => congrArg some (hfirst.eq ht)⟩,
        iff_of_false nofun fun hnone => hnone _ hshared hpays⟩
      rintro ⟨⟩
      exact hfirst

/-- An offer that rises to three within a second meets a listing at one after a third
    of it, rounded up. -/
theorem crossing_scans_rise :
    let offers := [⟨.zero, .ofUInt64 3, 0, 1000⟩]
    let listings := [constant (.ofUInt64 1) 0 1000]
    crossing offers listings = .ok (some ⟨.ofUInt64 1, 334⟩) ∧ Pays offers listings 334 ∧
      (Scans offers listings (some 334) ↔ ∀ t, Inside (offers ++ listings) t →
        Pays offers listings t → 334 ≤ t) := by
  intro offers listings
  have hw : sharedWindow? (offers ++ listings) = some (0, 1000) := by decide
  have h : crossing offers listings = .ok (some ⟨.ofUInt64 1, 334⟩) := by
    rw [crossing_eq (by simp [offers]) (by simp [listings]) hw]
    exact toOption_eq_some_iff.1 (by decide +kernel)
  obtain ⟨hdeal, -, hscans⟩ := crossing_scans_iff (by simp [offers]) (by simp [listings]) h
  exact ⟨h, (hdeal _ rfl).2.1, by simpa using hscans⟩

/-- The least price above zero. -/
def leastPrice : Decimal := ⟨false, 1, 28, by decide, by decide⟩

/-- An offer that rises to the least price, and is there a millisecond early because
    two thirds of it are rounded up. -/
def gentleRise : PriceRamp := ⟨.zero, leastPrice, 0, 3⟩

/-- **Where curves are flat the scan can be earlier**: the offer pays at the second
    millisecond, and the crossing is the third. -/
theorem crossing_passes_by :
    let listing := constant leastPrice 0 3
    ∃ r, crossing [gentleRise] [listing] = .ok r ∧
      (∀ t, Shared [gentleRise, listing] t → ∃ gap, spread [gentleRise] [listing] t = .ok gap) ∧
        ¬ Scans [gentleRise] [listing] (r.map (·.timestamp)) := by
  intro listing
  have hw : sharedWindow? ([gentleRise] ++ [listing]) = some (0, 3) := by decide
  have h : crossing [gentleRise] [listing] = .ok (some ⟨leastPrice, 3⟩) := by
    rw [crossing_eq (by simp) (by simp) hw]
    exact toOption_eq_some_iff.1 (by decide +kernel)
  have hgap : spread [gentleRise] [listing] 2 = .ok ⟨false, 0, 28, by decide, by decide⟩ :=
    toOption_eq_some_iff.1 (by decide +kernel)
  have hpays : Pays [gentleRise] [listing] 2 := (pays_iff hgap).2 rfl
  refine ⟨_, h, fun t ht => ?_, fun hscan => ?_⟩
  · have hcomputes : ∀ n < 4, (spread [gentleRise] [listing] (.ofNat n)).toOption.isSome := by
      decide +kernel
    have hlt : t.toNat < 4 := by
      have hle : t ≤ 3 := (ht gentleRise (by simp)).2
      exact Nat.lt_succ_of_le (UInt64.le_iff_toNat_le.1 hle)
    obtain ⟨gap, hgap⟩ := Option.isSome_iff_exists.1 (hcomputes t.toNat hlt)
    rw [UInt64.ofNat_toNat] at hgap
    exact ⟨gap, toOption_eq_some_iff.1 hgap⟩
  · have hfirst := (hscan.found 3).1 rfl
    exact hfirst.not_before 2 (by decide) (by simp [Shared, gentleRise, listing, constant]) hpays

end Matchbook.PriceRamp
