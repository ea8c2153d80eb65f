/-
  Rounding: bringing exact results back into the range of decimals.

  * `roundHalfEven n d` is the whole number nearest to `n / d`, a half going
    to the even neighbour;
  * `digitsToDrop m s` is the least number of digits to drop from the exact
    magnitude `m` with `s` fraction digits so that the rest fits;
  * `fit` drops that many, rounding once (and once more in the single case in
    which rounding reaches the bound itself).
-/
import Matchbook.Decimal.Basic

namespace Matchbook.Decimal

/-- The whole number nearest to `n / d`; a half goes to the even neighbour. -/
def roundHalfEven (n d : Nat) : Nat :=
  if 2 * (n % d) < d then n / d
  else if d < 2 * (n % d) then n / d + 1
  else if n / d % 2 = 0 then n / d
  else n / d + 1

/-- The fewest digits, and at least those beyond the last possible fraction
    digit, without which `m` stays below the bound; `none` if these are more
    than the fraction digits. -/
def digitsToDrop (m s : Nat) : Option Nat :=
  (List.range (s + 1)).find? fun k =>
    decide (s ≤ maxScale + k) && decide (m / powerOfTen k < coefficientBound)

/-- The decimal nearest to `m / 10 ^ s` among those of as many digits as fit;
    `none` if even its integer part is too large. -/
def fit (negative : Bool) (m s : Nat) : Option Decimal :=
  match digitsToDrop m s with
  | none => none
  | some k =>
    let c := roundHalfEven m (powerOfTen k)
    if c < coefficientBound then ofParts? negative c (s - k)
    else if s - k = 0 then none
    else ofParts? negative (roundHalfEven c 10) (s - k - 1)

/-- `roundHalfEven` is never below the quotient and at most one above it. -/
theorem div_le_roundHalfEven (n d : Nat) : n / d ≤ roundHalfEven n d := by
  grind [roundHalfEven]

theorem roundHalfEven_le (n d : Nat) : roundHalfEven n d ≤ n / d + 1 := by
  grind [roundHalfEven]

/-- An exact quotient is not changed by rounding. -/
theorem roundHalfEven_mul (q d : Nat) (h : 0 < d) : roundHalfEven (q * d) d = q := by
  unfold roundHalfEven
  rw [Nat.mul_mod_left, Nat.mul_div_cancel _ h, if_pos (by omega)]

end Matchbook.Decimal
