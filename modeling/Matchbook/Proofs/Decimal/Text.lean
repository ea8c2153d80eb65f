/-
  Reading back the text of a decimal.

  * `Reading.run_digitsOnto`: digits that fit are read one after the other;
  * `ofText?_toText`: the text of a decimal gives back its digits and its scale, and its
    sign too unless it is zero (`unsigned`);
  * `readScientific_of_isNegativeZero`: a zero with a minus sign is only read from a text
    with an exponent, by rounding.
-/
import Mathlib.Tactic.Ring
import Matchbook.Decimal.Text
import Matchbook.Proofs.Decimal.Magnitude

namespace Matchbook.Decimal

/-! ## Negative zeros -/

/-- A zero with a minus sign. -/
def IsNegativeZero (d : Decimal) : Prop := d.negative = true ∧ d.coefficient = 0

instance (d : Decimal) : Decidable d.IsNegativeZero := inferInstanceAs (Decidable (_ ∧ _))

/-- The same digits, without the minus sign of a zero. -/
def unsigned (d : Decimal) : Decimal := { d with negative := d.negative && d.coefficient != 0 }

theorem unsigned_eq_iff {d : Decimal} : d.unsigned = d ↔ ¬ d.IsNegativeZero := by
  obtain ⟨negative, coefficient, scale, _, _⟩ := d
  cases negative <;> simp [unsigned, IsNegativeZero]

theorem not_isNegativeZero_unsigned (d : Decimal) : ¬ d.unsigned.IsNegativeZero := by
  simp [unsigned, IsNegativeZero]

theorem ofParts?_eq_unsigned (d : Decimal) :
    ofParts? d.negative d.coefficient d.scale = some d.unsigned :=
  dif_pos ⟨d.coefficient_lt, d.scale_le⟩

theorem not_isNegativeZero_of_ofParts? {negative : Bool} {c s : Nat} {d : Decimal}
    (h : ofParts? negative c s = some d) : ¬ d.IsNegativeZero := by
  unfold ofParts? at h
  split at h
  · cases h
    simp [IsNegativeZero]
  · cases h

/-! ## Digits -/

theorem digitValue?_digitChar (n : Nat) : digitValue? (digitChar n) = some (n % 10) := by
  have hdigit : ∀ k < 10, digitValue? (Char.ofNat (48 + k)) = some k := by decide
  exact hdigit (n % 10) (Nat.mod_lt n (by decide))

theorem digitsOnto_append (count n : Nat) (rest rest' : List Char) :
    digitsOnto count n (rest ++ rest') = digitsOnto count n rest ++ rest' := by
  induction count generalizing n rest with
  | zero => rfl
  | succ count ih => exact ih (n / 10) (digitChar n :: rest)

/-- The first of the digits. -/
theorem digitsOnto_succ (count n : Nat) (rest : List Char) :
    ∃ m, digitsOnto (count + 1) n rest = digitChar m :: digitsOnto count n rest := by
  induction count generalizing n rest with
  | zero => exact ⟨n, rfl⟩
  | succ count ih => exact ih (n / 10) (digitChar n :: rest)

theorem lt_powerOfTen_digitCount {n : Nat} (h : n < powerOfTen 30) :
    n < powerOfTen (digitCount 30 n) := by
  unfold digitCount
  cases hfind : (List.range 30).find? fun k => decide (n < powerOfTen (k + 1)) with
  | none =>
    have hlast := List.find?_eq_none.1 hfind 29 (by decide)
    exact absurd h (of_decide_eq_false (Bool.eq_false_iff.2 hlast))
  | some k => simpa using List.find?_some hfind

/-- A number has a first digit. -/
theorem digits_cons (n : Nat) : ∃ m rest, digits n = digitChar m :: rest := by
  obtain ⟨m, h⟩ := digitsOnto_succ (digitCount 30 n - 1) n []
  exact ⟨m, _, h⟩

theorem splitSign_digitChar (n : Nat) (rest : List Char) :
    splitSign (digitChar n :: rest) = (false, digitChar n :: rest) := by
  have hdigit : ∀ k < 10, Char.ofNat (48 + k) ≠ '-' ∧ Char.ofNat (48 + k) ≠ '+' := by decide
  obtain ⟨hminus, hplus⟩ := hdigit (n % 10) (Nat.mod_lt n (by decide))
  unfold splitSign
  split
  · next heq => exact absurd (List.cons.inj heq).1 hminus
  · next heq => exact absurd (List.cons.inj heq).1 hplus
  · rfl

/-! ## Reading digits -/

namespace Reading

variable {c s : Nat} {point started : Bool}

/-- A digit that fits is taken. -/
theorem run_digit {n : Nat} (rest : List Char) (hfits : c * 10 + n % 10 < coefficientBound)
    (hscale : point = true → s < maxScale) :
    run ⟨c, s, point, started⟩ (digitChar n :: rest) =
      run ⟨c * 10 + n % 10, if point then s + 1 else s, point, true⟩ rest := by
  have hfull : isFull ⟨c, s, point, started⟩ = false := by
    cases point with
    | false => rfl
    | true => simpa [isFull] using Nat.ne_of_lt (hscale rfl)
  rw [run, digitValue?_digitChar]
  simp [hfull, Nat.not_le.2 hfits]

/-- Digits that fit are taken, one after the other. -/
theorem run_digitsOnto {count n : Nat} (rest : List Char)
    (hfits : c * powerOfTen count + n % powerOfTen count < coefficientBound)
    (hscale : point = true → s + count ≤ maxScale) :
    run ⟨c, s, point, started⟩ (digitsOnto count n rest) =
      run ⟨c * powerOfTen count + n % powerOfTen count, if point then s + count else s, point,
        started || decide (0 < count)⟩ rest := by
  induction count generalizing n rest with
  | zero => simp [digitsOnto, Nat.mod_one]
  | succ count ih =>
    have hvalue : c * powerOfTen (count + 1) + n % powerOfTen (count + 1) =
        (c * powerOfTen count + n / 10 % powerOfTen count) * 10 + n % 10 := by
      rw [powerOfTen_succ, Nat.mul_comm (powerOfTen count), Nat.mod_mul]
      ring
    rw [hvalue] at hfits ⊢
    show run ⟨c, s, point, started⟩ (digitsOnto count (n / 10) (digitChar n :: rest)) = _
    rw [ih _ (by omega) fun h => by have := hscale h; omega, run_digit rest hfits fun h => ?_]
    · cases point <;> simp [Nat.add_assoc]
    · have := hscale h
      rw [if_pos h]
      omega

/-- All digits of a number that fits are read. -/
theorem run_digits {n : Nat} (h : n < coefficientBound) (rest : List Char) :
    run ⟨0, 0, false, false⟩ (digits n ++ rest) = run ⟨n, 0, false, true⟩ rest := by
  have hcount : n % powerOfTen (digitCount 30 n) = n :=
    Nat.mod_eq_of_lt (lt_powerOfTen_digitCount (Nat.lt_trans h (by decide)))
  have hpos : 0 < digitCount 30 n := Nat.succ_pos _
  rw [digits, ← digitsOnto_append, List.nil_append, run_digitsOnto rest, hcount]
  · simp [hpos]
  · rwa [hcount, Nat.zero_mul, Nat.zero_add]
  · exact nofun

/-- The digits in front of the point and those behind it are read as one number. -/
theorem run_fraction {c s : Nat} (hc : c < coefficientBound) (hs : s ≤ maxScale) :
    run ⟨0, 0, false, false⟩ (digits (c / powerOfTen s) ++ '.' :: digitsOnto s c []) =
      some (c, s) := by
  have hdigits : c / powerOfTen s * powerOfTen s + c % powerOfTen s = c := Nat.div_add_mod' _ _
  rw [run_digits (Nat.lt_of_le_of_lt (Nat.div_le_self _ _) hc)]
  show run ⟨c / powerOfTen s, 0, true, true⟩ (digitsOnto s c []) = _
  rw [run_digitsOnto, hdigits]
  · simp [run]
  · rwa [hdigits]
  · exact fun _ => by omega

/-- The whole text is read, if no sign is in front of it. -/
theorem run_toChars {d : Decimal} (h : d.negative = false) :
    run ⟨0, 0, false, false⟩ d.toChars = some (d.coefficient, d.scale) := by
  simp only [toChars, h, Bool.false_eq_true, if_false]
  split
  · next hzero =>
    rw [hzero, powerOfTen_zero, Nat.div_one, ← List.append_nil (digits _),
      run_digits d.coefficient_lt]
    rfl
  · exact run_fraction d.coefficient_lt d.scale_le

end Reading

/-! ## Reading decimals -/

theorem splitSign_toChars {d : Decimal} (h : d.negative = false) :
    splitSign d.toChars = (false, d.toChars) := by
  obtain ⟨m, rest, hdigits⟩ := digits_cons (d.coefficient / powerOfTen d.scale)
  simp only [toChars, h, Bool.false_eq_true, if_false, hdigits]
  split
  · exact splitSign_digitChar m rest
  · exact splitSign_digitChar m _

theorem toChars_of_negative {d : Decimal} (h : d.negative = true) :
    d.toChars = '-' :: { d with negative := false }.toChars := by
  simp only [toChars, h, if_true]
  rfl

theorem readPlain_toChars (d : Decimal) : readPlain d.toChars = some d.unsigned := by
  have hparts := ofParts?_eq_unsigned d
  cases h : d.negative with
  | false =>
    rw [h] at hparts
    simp only [readPlain, splitSign_toChars h, Reading.run_toChars h, hparts]
  | true =>
    rw [h] at hparts
    have hread : Reading.run ⟨0, 0, false, false⟩ { d with negative := false }.toChars =
      some (d.coefficient, d.scale) := Reading.run_toChars rfl
    rw [toChars_of_negative h]
    simp only [readPlain, splitSign, hread, hparts]

/-- **The text of a decimal** is read as the same digits, with the same number of them
    behind the point, and the same sign, which a zero loses. -/
theorem ofText?_toText (d : Decimal) : ofText? d.toText = some d.unsigned := by
  rw [ofText?, toText, String.toList_ofList, ofChars?, readPlain_toChars]

theorem not_isNegativeZero_of_readPlain {text : List Char} {d : Decimal}
    (h : readPlain text = some d) : ¬ d.IsNegativeZero := by
  unfold readPlain at h
  dsimp only at h
  split at h
  · exact not_isNegativeZero_of_ofParts? h
  · cases h

/-- Only rounding brings a zero with a minus sign about, at the last place that there is. -/
theorem scale_of_isNegativeZero {text : List Char} {d : Decimal} (h : readScientific text = some d)
    (hd : d.IsNegativeZero) : d.scale = maxScale := by
  unfold readScientific at h
  dsimp only at h
  split at h
  · cases h
  split at h
  · unfold shiftLeft at h
    split at h
    · obtain ⟨c, hc, rfl⟩ := Option.map_eq_some_iff.1 h
      exact (ofParts?_eq_some hc).2
    · exact absurd hd (not_isNegativeZero_of_ofParts? h)
  · unfold shiftRight at h
    split at h
    · exact absurd hd (not_isNegativeZero_of_ofParts? h)
    · exact absurd hd (not_isNegativeZero_of_ofParts? h)
  · cases h

/-- **A zero with a minus sign** is read from a text with an exponent only, as one with as many
    fraction digits as there can be. -/
theorem readScientific_of_isNegativeZero {text : String} {d : Decimal} (h : ofText? text = some d)
    (hd : d.IsNegativeZero) : readScientific text.toList = some d ∧ d.scale = maxScale := by
  unfold ofText? ofChars? at h
  split at h
  · next hplain =>
    cases h
    exact absurd hd (not_isNegativeZero_of_readPlain hplain)
  · exact ⟨h, scale_of_isNegativeZero h hd⟩

end Matchbook.Decimal
