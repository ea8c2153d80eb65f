/-
  Binary floating-point numbers of 64 bits, as far as documents need them: a
  literal with a fraction or an exponent stands for such a number, and that
  number is read by the shortest digits that identify it.

  * `ofRatio?` and `ofDecimal?` round a fraction, or digits with a power of
    ten, to the nearest number, a tie going to the even mantissa;
  * `mul?` and `div?` multiply and divide, each rounding in the same way, and
    `shift?` moves the decimal point by one such step for every 308 places;
  * `shortest` are the fewest digits that lie closer to the number than to its
    neighbours, the nearest of these if there are several and the larger one of
    two that are equally near;
  * `layOut` writes digits and a power of ten without an exponent.

  Signs are kept apart from these magnitudes.
-/
import Matchbook.Decimal.Text

namespace Matchbook

/-- The magnitude `mantissa * 2 ^ exponent`. -/
structure Binary64 where
  mantissa : Nat
  exponent : Int
  deriving DecidableEq, Repr

namespace Binary64

/-- The exponent of the numbers that are closest together. -/
abbrev leastExponent : Int := -1074

/-- The exponent of the largest numbers. -/
abbrev greatestExponent : Int := 971

/-- The least mantissa of a number of full precision: 53 bits. -/
abbrev leastFull : Nat := 4503599627370496

/-! ## Rounding to the nearest number -/

/-- The fraction `n / d / 2 ^ e`, as numerator and denominator. -/
def scaled (n d : Nat) (e : Int) : Nat × Nat :=
  if 0 ≤ e then (n, d <<< e.toNat) else (n <<< (-e).toNat, d)

/-- The number nearest to `n / d`; `none` if that is too large. -/
def ofRatio? (n d : Nat) : Option Binary64 :=
  if n = 0 then some ⟨0, leastExponent⟩
  else
    let e₀ : Int := (Nat.log2 n : Int) - Nat.log2 d - 52
    let e₁ := if (scaled n d e₀).1 / (scaled n d e₀).2 < leastFull then e₀ - 1 else e₀
    let e := max e₁ leastExponent
    let m := Decimal.roundHalfEven (scaled n d e).1 (scaled n d e).2
    let r : Binary64 := if m = 2 * leastFull then ⟨leastFull, e + 1⟩ else ⟨m, e⟩
    if r.exponent > greatestExponent then none else some r

/-- The number nearest to `digits * 10 ^ power`; `none` if that is too large. -/
def ofDecimal? (digits : Nat) (power : Int) : Option Binary64 :=
  let size : Int := Nat.log2 digits
  if digits = 0 then some ⟨0, leastExponent⟩
  else if power > 400 then none
  else if power < -400 - size then some ⟨0, leastExponent⟩
  else if 0 ≤ power then ofRatio? (digits * powerOfTen power.toNat) 1
  else ofRatio? digits (powerOfTen (-power).toNat)

/-! ## Arithmetic -/

/-- The product; `none` if it is too large. -/
def mul? (x y : Binary64) : Option Binary64 :=
  let e := x.exponent + y.exponent
  let m := x.mantissa * y.mantissa
  if 0 ≤ e then ofRatio? (m <<< e.toNat) 1 else ofRatio? m (1 <<< (-e).toNat)

/-- The quotient by a number that is not zero; `none` if it is too large. -/
def div? (x y : Binary64) : Option Binary64 :=
  let (n, d) := scaled x.mantissa y.mantissa (y.exponent - x.exponent)
  ofRatio? n d

/-- The largest power of ten in range. -/
abbrev greatestPower : Nat := 308

/-- The power of ten. -/
def tenTo? (power : Nat) : Option Binary64 := ofRatio? (powerOfTen power) 1

/-- Moves the decimal point: to the right by one multiplication, to the left by
    divisions, the largest power of ten first as long as the distance exceeds
    it.  Of the `rounds` that are allowed, three bring every whole number of 64
    bits to zero. -/
def shift? : (rounds : Nat) → Binary64 → (power : Int) → Option Binary64
  | 0, _, _ => none
  | rounds + 1, x, power =>
    if power.natAbs ≤ greatestPower then
      (tenTo? power.natAbs).bind fun p => if 0 ≤ power then x.mul? p else x.div? p
    else if x.mantissa = 0 then some x
    else if 0 ≤ power then none
    else
      (tenTo? greatestPower).bind fun p =>
        (x.div? p).bind fun y => shift? rounds y (power + greatestPower)

/-! ## The shortest digits -/

/-- The number of decimal digits of `n`, none for zero. -/
def decimalLength (n : Nat) : Nat :=
  ((List.range 400).find? fun k => decide (n < powerOfTen k)).getD 400

/-- The digits on the grid of `10 ^ power` that identify the number: one of the
    two grid points around it, if it lies between the midpoints to the
    neighbouring numbers (a midpoint itself counts if the mantissa is even).
    All four quantities are brought to quarter units of the mantissa. -/
def digitsAt? (x : Binary64) (power : Int) : Option Nat :=
  let lower := if x.mantissa = leastFull ∧ x.exponent > leastExponent
    then 4 * x.mantissa - 1 else 4 * x.mantissa - 2
  let upper := 4 * x.mantissa + 2
  -- a grid point `g` is `g * grid / unit` quarter units
  let (grid, unit) := match scaled 4 1 x.exponent with
    | (num, den) => if 0 ≤ power then (num * powerOfTen power.toNat, den)
      else (num, den * powerOfTen (-power).toNat)
  let value := 4 * x.mantissa * unit
  let inside (g : Nat) : Bool :=
    if x.mantissa % 2 = 0 then lower * unit ≤ g * grid && g * grid ≤ upper * unit
    else lower * unit < g * grid && g * grid < upper * unit
  let below := value / grid
  let lowHit := inside below && below != 0
  let highHit := inside (below + 1)
  if lowHit && highHit then
    some (if 2 * value < (2 * below + 1) * grid then below else below + 1)
  else if lowHit then some below
  else if highHit then some (below + 1)
  else none

/-- Tries the grids from the coarsest to the finest. -/
def search (x : Binary64) : (rounds : Nat) → (power : Int) → Nat × Int
  | 0, power => (x.mantissa, power)
  | rounds + 1, power =>
    match x.digitsAt? power with
    | some digits => (digits, power)
    | none => search x rounds (power - 1)

/-- The fewest digits that identify the number, with their power of ten. -/
def shortest (x : Binary64) : Nat × Int :=
  if x.mantissa = 0 then (0, 0)
  else
    let (n, d) := if 0 ≤ x.exponent then (x.mantissa <<< x.exponent.toNat, 1)
      else (x.mantissa, 1 <<< (-x.exponent).toNat)
    let top : Int := if d ≤ n then decimalLength (n / d) else 1 - (decimalLength (d / n) : Int)
    search x 30 top

/-- The characters of a natural number of any size. -/
def naturalChars (n : Nat) : List Char :=
  Decimal.digitsOnto (max 1 (decimalLength n)) n []

/-- Digits and a power of ten as a text without exponent. -/
def layOut (digits : Nat) (power : Int) : List Char :=
  if 0 ≤ power then naturalChars (digits * powerOfTen power.toNat)
  else
    let places := (-power).toNat
    naturalChars (digits / powerOfTen places) ++ '.' :: Decimal.digitsOnto places digits []

end Binary64
end Matchbook
