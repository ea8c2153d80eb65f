/-
  Where the crossing of two sides is looked for, and what it is.

  * `Shared`, `Inside`: a time lies in all windows, or strictly inside all of them;
    `IsWindow`: the window is the shared time, and it is what is found
    (`sharedWindow?_eq_some`, `IsWindow.sharedWindow?_eq`);
  * `Pays`: the offers pay what the listings ask; it is what the sign of the spread
    says (`pays_iff`);
  * `IsWindow.no_break`: no ramp starts or ends inside the shared window, so there is
    one piece at most, from end to end (`IsWindow.breakpoints_eq`, `crossing_eq`);
  * `crossing_spec`, `crossing_eq_none_iff`: the crossing is a shared time at which
    the offers pay, at the listings' price, and there is one exactly if the offers
    pay at an end of the window.
-/
import Matchbook.Price.Crossing
import Matchbook.Proofs.Decimal.Difference
import Matchbook.Proofs.Except
import Matchbook.Proofs.Ordering

namespace Matchbook

instance lawfulOrderMaxUInt64 : Std.LawfulOrderMax UInt64 where
  max_eq_or a b := by
    show (if a ≤ b then b else a) = a ∨ (if a ≤ b then b else a) = b
    split <;> simp
  max_le_iff a b c := by
    show (if a ≤ b then b else a) ≤ c ↔ a ≤ c ∧ b ≤ c
    grind

namespace PriceRamp

variable {offers listings ramps : List PriceRamp} {first last : UInt64}

/-! ## Shared time -/

/-- The time lies in the windows of all ramps. -/
def Shared (ramps : List PriceRamp) (t : UInt64) : Prop :=
  ∀ r ∈ ramps, r.startTime ≤ t ∧ t ≤ r.endTime

/-- The time lies strictly inside the windows of all ramps. -/
def Inside (ramps : List PriceRamp) (t : UInt64) : Prop :=
  ∀ r ∈ ramps, r.startTime < t ∧ t < r.endTime

theorem shared_iff_contains {t : UInt64} : Shared ramps t ↔ ∀ r ∈ ramps, r.contains t = true := by
  simp [Shared, contains]

/-- The window is the shared time: it begins with the start of a ramp and ends with
    the end of one. -/
structure IsWindow (ramps : List PriceRamp) (first last : UInt64) : Prop where
  start_mem : first ∈ ramps.map startTime
  end_mem : last ∈ ramps.map endTime
  start_le : ∀ r ∈ ramps, r.startTime ≤ first
  le_end : ∀ r ∈ ramps, last ≤ r.endTime
  le : first ≤ last

theorem sharedWindow?_eq_some (h : sharedWindow? ramps = some (first, last)) :
    IsWindow ramps first last := by
  unfold sharedWindow? at h
  split at h
  · next s e hs he =>
    split at h
    · next hle =>
      cases h
      obtain ⟨hs, hmax⟩ := List.max?_eq_some_iff.1 hs
      obtain ⟨he, hmin⟩ := List.min?_eq_some_iff.1 he
      exact ⟨hs, he, fun r hr => hmax _ (List.mem_map_of_mem hr),
        fun r hr => hmin _ (List.mem_map_of_mem hr), hle⟩
    · cases h
  · cases h

/-- The window is found. -/
theorem IsWindow.sharedWindow?_eq (h : IsWindow ramps first last) :
    sharedWindow? ramps = some (first, last) := by
  have hs : (ramps.map startTime).max? = some first :=
    List.max?_eq_some_iff.2 ⟨h.start_mem, by simpa using h.start_le⟩
  have he : (ramps.map endTime).min? = some last :=
    List.min?_eq_some_iff.2 ⟨h.end_mem, by simpa using h.le_end⟩
  rw [sharedWindow?, hs, he]
  exact if_pos h.le

theorem not_shared_of_sharedWindow? (hne : ramps ≠ []) (h : sharedWindow? ramps = none)
    (t : UInt64) : ¬ Shared ramps t := by
  intro ht
  unfold sharedWindow? at h
  split at h
  · next s e hs he =>
    obtain ⟨hs, -⟩ := List.max?_eq_some_iff.1 hs
    obtain ⟨he, -⟩ := List.min?_eq_some_iff.1 he
    obtain ⟨r, hr, rfl⟩ := List.mem_map.1 hs
    obtain ⟨r', hr', rfl⟩ := List.mem_map.1 he
    rw [if_pos (UInt64.le_trans (ht r hr).1 (ht r' hr').2)] at h
    cases h
  · next hnone =>
    -- a list that is not empty has a greatest and a least element
    obtain ⟨s, hs⟩ := Option.isSome_iff_exists.1
      (List.isSome_max?_of_ne_nil (l := ramps.map startTime) (by simpa using hne))
    obtain ⟨e, he⟩ := Option.isSome_iff_exists.1
      (List.isSome_min?_of_ne_nil (l := ramps.map endTime) (by simpa using hne))
    exact hnone s e hs he

namespace IsWindow

variable (h : IsWindow ramps first last)
include h

theorem shared_iff {t : UInt64} : Shared ramps t ↔ first ≤ t ∧ t ≤ last := by
  constructor
  · intro ht
    obtain ⟨r, hr, rfl⟩ := List.mem_map.1 h.start_mem
    obtain ⟨r', hr', rfl⟩ := List.mem_map.1 h.end_mem
    exact ⟨(ht r hr).1, (ht r' hr').2⟩
  · rintro ⟨hs, he⟩ r hr
    exact ⟨UInt64.le_trans (h.start_le r hr) hs, UInt64.le_trans he (h.le_end r hr)⟩

theorem shared_first : Shared ramps first := h.shared_iff.2 ⟨UInt64.le_refl _, h.le⟩

theorem shared_last : Shared ramps last := h.shared_iff.2 ⟨h.le, UInt64.le_refl _⟩

theorem inside_iff {t : UInt64} : Inside ramps t ↔ first < t ∧ t < last := by
  constructor
  · intro ht
    obtain ⟨r, hr, rfl⟩ := List.mem_map.1 h.start_mem
    obtain ⟨r', hr', rfl⟩ := List.mem_map.1 h.end_mem
    exact ⟨(ht r hr).1, (ht r' hr').2⟩
  · rintro ⟨hs, he⟩ r hr
    exact ⟨UInt64.lt_of_le_of_lt (h.start_le r hr) hs, UInt64.lt_of_lt_of_le he (h.le_end r hr)⟩

/-- **No break**: no ramp starts or ends strictly inside the window. -/
theorem no_break {r : PriceRamp} (hr : r ∈ ramps) {t : UInt64} (ht : t ∈ [r.startTime, r.endTime]) :
    ¬ (first < t ∧ t < last) := by
  rintro ⟨hafter, hbefore⟩
  simp only [List.mem_cons, List.not_mem_nil, or_false] at ht
  rcases ht with rfl | rfl
  · exact UInt64.not_lt.2 (h.start_le r hr) hafter
  · exact UInt64.not_lt.2 (h.le_end r hr) hbefore

/-- Only the ends of the window are left. -/
theorem breakpoints_eq :
    breakpoints ramps first last = if first = last then [first] else [first, last] := by
  have hinner : (ramps.flatMap fun r => [r.startTime, r.endTime]).filter
      (fun t => decide (first < t) && decide (t < last)) = [] := by
    rw [List.filter_eq_nil_iff]
    intro t ht hbreak
    obtain ⟨r, hr, ht⟩ := List.mem_flatMap.1 ht
    exact h.no_break hr ht (by simpa using hbreak)
  have hsorted : ([first, last].mergeSort fun a b => decide (a ≤ b)) = [first, last] :=
    List.mergeSort_of_pairwise (by simpa using h.le)
  unfold breakpoints
  dsimp only
  rw [hinner, List.nil_append, hsorted]
  by_cases heq : first = last
  · subst heq
    simp [List.eraseReps, List.eraseRepsBy, List.eraseRepsBy.loop]
  · simp [List.eraseReps, List.eraseRepsBy, List.eraseRepsBy.loop, heq, beq_eq_false_iff_ne.2 heq]

/-- There is one piece, or none if the window is a single time. -/
theorem segments_eq :
    segments (breakpoints ramps first last) = if first = last then [] else [(first, last)] := by
  rw [h.breakpoints_eq]
  split <;> rfl

end IsWindow

/-! ## Paying -/

/-- The offers together pay at least what the listings together ask. -/
def Pays (offers listings : List PriceRamp) (t : UInt64) : Prop :=
  ∃ paid asked, sumAt offers t = .ok paid ∧ sumAt listings t = .ok asked ∧
    (asked.compare paid).isLE = true

/-- The spread tells whether the offers pay, however it is rounded. -/
theorem pays_iff {t : UInt64} {gap : Decimal} (h : spread offers listings t = .ok gap) :
    Pays offers listings t ↔ gap.isBelowZero = false := by
  obtain ⟨paid, hpaid, h⟩ := bind_eq_ok.1 h
  obtain ⟨asked, hasked, h⟩ := bind_eq_ok.1 h
  have hsign := Decimal.sub_isBelowZero_iff h
  have hswap : (asked.compare paid).isLE = true ↔ paid.compare asked ≠ .lt := by
    rw [← Decimal.compare_def, ← Decimal.compare_def, Std.OrientedOrd.eq_swap (a := asked)]
    cases Ord.compare paid asked <;> decide
  constructor
  · rintro ⟨paid', asked', hpaid', hasked', hle⟩
    cases hpaid.symm.trans hpaid'
    cases hasked.symm.trans hasked'
    rw [← Bool.not_eq_true, hsign]
    exact hswap.1 hle
  · intro hgap
    refine ⟨paid, asked, hpaid, hasked, hswap.2 fun hlt => ?_⟩
    rw [hsign.2 hlt] at hgap
    cases hgap

/-! ## The crossing between two times -/

/-- A sum of times that is kept up to the last one is that of the numbers, kept so. -/
theorem toNat_min_addClamped (a b last : UInt64) :
    (min (addClamped a b) last).toNat = min (a.toNat + b.toNat) last.toNat := by
  have hlast := last.toNat_lt
  have hmin : ∀ c d : UInt64, (min c d).toNat = min c.toNat d.toNat := fun c d => by
    show (if c ≤ d then c else d).toNat = _
    simp only [UInt64.le_iff_toNat_le]
    split <;> omega
  rw [hmin, addClamped]
  split
  · next h => rw [UInt64.toNat_add, Nat.mod_eq_of_lt h]
  · next h =>
    have hsize : UInt64.size = 2 ^ 64 := rfl
    rw [UInt64.toNat_ofNat_of_lt' (by decide)]
    simp only [hsize] at h ⊢
    omega

/-- A time that is moved on and kept up to the last one stays behind the first. -/
theorem le_min_addClamped {a b : UInt64} (hle : first ≤ last) (ha : first ≤ a) :
    first ≤ min (addClamped a b) last := by
  rw [UInt64.le_iff_toNat_le] at hle ha ⊢
  rw [toNat_min_addClamped]
  omega

/-- A time that is found is one of those tried, and the offers pay then; else it is
    the last one. -/
theorem firstPaid_spec {times : List UInt64} {t : UInt64}
    (h : firstPaid offers listings last times = .ok t) :
    t ∈ times ∧ Pays offers listings t ∨ t = last := by
  induction times with
  | nil => exact Or.inr (Except.ok.inj h).symm
  | cons a times ih =>
    obtain ⟨gap, hgap, h⟩ := bind_eq_ok.1 h
    split at h
    · exact (ih h).imp_left fun ⟨hmem, hpays⟩ => ⟨List.mem_cons_of_mem _ hmem, hpays⟩
    · next hneg =>
      cases h
      exact Or.inl ⟨List.mem_cons_self, (pays_iff hgap).2 (by simpa using hneg)⟩

/-- A crossing between two times lies between them and pays, if the end does. -/
theorem solve_spec {below above : Decimal} {t : UInt64} (hle : first ≤ last)
    (hlast : Pays offers listings last)
    (h : solve offers listings first last below above = .ok t) :
    first ≤ t ∧ t ≤ last ∧ Pays offers listings t := by
  obtain ⟨product, -, h⟩ := bind_eq_ok.1 h
  obtain ⟨rise, -, h⟩ := bind_eq_ok.1 h
  obtain ⟨offset, -, h⟩ := bind_eq_ok.1 h
  rcases firstPaid_spec h with ⟨hmem, hpays⟩ | rfl
  · have hcandidate := le_min_addClamped (b := offset.ceil.toUInt64?.getD (last - first)) hle
      (UInt64.le_refl first)
    simp only [List.mem_cons, List.not_mem_nil, or_false] at hmem
    rcases hmem with rfl | rfl
    · exact ⟨hcandidate, Std.min_le_right, hpays⟩
    · exact ⟨le_min_addClamped hle hcandidate, Std.min_le_right, hpays⟩
  · exact ⟨hle, UInt64.le_refl _, hlast⟩

/-- The time of the crossing in a window: the start if the offers pay then, else a
    time up to the end if they pay there. -/
def betweenEnds (offers listings : List PriceRamp) (first last : UInt64) :
    Except ArithmeticError (Option UInt64) := do
  let below ← spread offers listings first
  if !below.isBelowZero then return some first
  else if first = last then return none
  else
    let above ← spread offers listings last
    if above.isBelowZero then return none
    else return some (← solve offers listings first last below above)

theorem betweenEnds_spec {r : Option UInt64} (hle : first ≤ last)
    (h : betweenEnds offers listings first last = .ok r) :
    (∀ t, r = some t → first ≤ t ∧ t ≤ last ∧ Pays offers listings t) ∧
      (Pays offers listings first → r = some first) ∧
        (r = none ↔ ¬ Pays offers listings first ∧ ¬ Pays offers listings last) := by
  obtain ⟨below, hbelow, h⟩ := bind_eq_ok.1 h
  have hfirst := pays_iff hbelow
  split at h
  · next hpays =>
    obtain rfl := pure_eq_ok.1 h
    have hpays := hfirst.2 (by simpa using hpays)
    refine ⟨?_, fun _ => rfl, by simp [hpays]⟩
    rintro t ⟨⟩
    exact ⟨UInt64.le_refl _, hle, hpays⟩
  · next hneg =>
    have hneg : ¬ Pays offers listings first := fun hpays => by simp [hfirst.1 hpays] at hneg
    split at h
    · next heq =>
      obtain rfl := pure_eq_ok.1 h
      subst heq
      exact ⟨nofun, fun hpays => absurd hpays hneg, by simp [hneg]⟩
    · obtain ⟨above, habove, h⟩ := bind_eq_ok.1 h
      have hlast := pays_iff habove
      split at h
      · next hbelow =>
        obtain rfl := pure_eq_ok.1 h
        exact ⟨nofun, fun hpays => absurd hpays hneg, by simp [hneg, hlast, hbelow]⟩
      · next hpays =>
        have hpays := hlast.2 (by simpa using hpays)
        obtain ⟨t, ht, h⟩ := bind_eq_ok.1 h
        obtain rfl := pure_eq_ok.1 h
        refine ⟨?_, fun hpays => absurd hpays hneg, by simp [hpays]⟩
        rintro t' ⟨⟩
        exact solve_spec hle hpays ht

/-! ## The crossing -/

/-- **The crossing is looked for between the ends of the shared window.** -/
theorem crossing_eq (ho : offers ≠ []) (hl : listings ≠ [])
    (hw : sharedWindow? (offers ++ listings) = some (first, last)) :
    crossing offers listings = (do
      match ← betweenEnds offers listings first last with
      | none => return none
      | some t => return some (← dealAt listings t)) := by
  have hwindow := sharedWindow?_eq_some hw
  unfold crossing betweenEnds
  rw [if_neg (by simp [ho, hl])]
  dsimp only
  rw [hw]
  dsimp only
  rw [hwindow.segments_eq, bind_assoc]
  refine bind_congr_of_ok fun below hbelow => ?_
  split
  · rfl
  · by_cases heq : first = last
    · rw [if_pos heq, if_pos heq]
      rfl
    · -- the spread at the start is looked at once more
      rw [if_neg heq, if_neg heq, firstCrossing, hbelow, ok_bind, bind_assoc, bind_assoc]
      refine bind_congr_of_ok fun above _ => ?_
      split
      · rfl
      · cases solve offers listings first last below above <;> rfl

/-- Without shared time there is no crossing; else it is between the ends of the
    shared window, at the listings' price. -/
theorem crossing_cases (ho : offers ≠ []) (hl : listings ≠ []) {r : Option Crossing}
    (h : crossing offers listings = .ok r) :
    (r = none ∧ ∀ t, ¬ Shared (offers ++ listings) t) ∨
      ∃ first last, IsWindow (offers ++ listings) first last ∧
        betweenEnds offers listings first last = .ok (r.map (·.timestamp)) ∧
          ∀ d, r = some d → sumAt listings d.timestamp = .ok d.price := by
  cases hw : sharedWindow? (offers ++ listings) with
  | none =>
    rw [crossing, if_neg (by simp [ho, hl])] at h
    dsimp only at h
    rw [hw] at h
    cases h
    exact Or.inl ⟨rfl, not_shared_of_sharedWindow? (by simp [ho]) hw⟩
  | some window =>
    obtain ⟨first, last⟩ := window
    rw [crossing_eq ho hl hw] at h
    obtain ⟨t, ht, h⟩ := bind_eq_ok.1 h
    refine Or.inr ⟨first, last, sharedWindow?_eq_some hw, ?_⟩
    cases t with
    | none =>
      obtain rfl := pure_eq_ok.1 h
      exact ⟨ht, nofun⟩
    | some t =>
      obtain ⟨d, hd, h⟩ := bind_eq_ok.1 h
      obtain ⟨price, hprice, hd⟩ := bind_eq_ok.1 hd
      obtain rfl := pure_eq_ok.1 hd
      obtain rfl := pure_eq_ok.1 h
      refine ⟨ht, ?_⟩
      rintro d ⟨⟩
      exact hprice

/-- **A crossing is a deal**: a shared time at which the offers pay, at the listings'
    price. -/
theorem crossing_spec (ho : offers ≠ []) (hl : listings ≠ []) {d : Crossing}
    (h : crossing offers listings = .ok (some d)) :
    Shared (offers ++ listings) d.timestamp ∧ Pays offers listings d.timestamp ∧
      sumAt listings d.timestamp = .ok d.price := by
  rcases crossing_cases ho hl h with ⟨hnone, -⟩ | ⟨first, last, hw, hends, hprice⟩
  · cases hnone
  · obtain ⟨hfirst, hlast, hpays⟩ := (betweenEnds_spec hw.le hends).1 d.timestamp rfl
    exact ⟨hw.shared_iff.2 ⟨hfirst, hlast⟩, hpays, hprice d rfl⟩

/-- There is no crossing exactly if the offers pay at no end of the shared time. -/
theorem crossing_eq_none_iff (ho : offers ≠ []) (hl : listings ≠ []) {r : Option Crossing}
    (h : crossing offers listings = .ok r) :
    r = none ↔ ∀ t, Shared (offers ++ listings) t → ¬ Inside (offers ++ listings) t →
      ¬ Pays offers listings t := by
  rcases crossing_cases ho hl h with ⟨hnone, hshared⟩ | ⟨first, last, hw, hends, -⟩
  · exact iff_of_true hnone fun t ht => absurd ht (hshared t)
  · have hle := hw.le
    rw [← Option.map_eq_none_iff (f := (·.timestamp)), (betweenEnds_spec hle hends).2.2]
    simp only [hw.shared_iff, hw.inside_iff]
    constructor
    · -- a shared time that is not inside is an end
      rintro ⟨hfirst, hlast⟩ t hshared hinside
      obtain rfl | rfl : t = first ∨ t = last := by grind
      · exact hfirst
      · exact hlast
    · intro h
      exact ⟨h first (by grind) (by grind), h last (by grind) (by grind)⟩

/-- Nothing at an end of the shared time is passed by. -/
theorem le_of_pays_at_end (ho : offers ≠ []) (hl : listings ≠ []) {r : Option Crossing}
    (h : crossing offers listings = .ok r) {t : UInt64} (ht : Shared (offers ++ listings) t)
    (hend : ¬ Inside (offers ++ listings) t) (hpays : Pays offers listings t) :
    ∃ d, r = some d ∧ d.timestamp ≤ t := by
  rcases crossing_cases ho hl h with ⟨-, hshared⟩ | ⟨first, last, hw, hends, -⟩
  · exact absurd ht (hshared t)
  · obtain ⟨hfound, hfirst, hnone⟩ := betweenEnds_spec hw.le hends
    rw [hw.shared_iff] at ht
    rw [hw.inside_iff] at hend
    obtain rfl | rfl : t = first ∨ t = last := by grind
    · obtain ⟨d, hd, heq⟩ := Option.map_eq_some_iff.1 (hfirst hpays)
      exact ⟨d, hd, heq ▸ UInt64.le_refl _⟩
    · cases r with
      | none => exact absurd hpays (hnone.1 rfl).2
      | some d => exact ⟨d, rfl, (hfound d.timestamp rfl).2.1⟩

end PriceRamp
end Matchbook
