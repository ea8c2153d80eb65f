/-
  Decimals: a sign, a coefficient below `2 ^ 96` and a number of fraction
  digits, at most 28.  The number of fraction digits is part of the value that
  is stored and printed (`0.10` is not `0.1`); the order compares numbers.

  * `Decimal` is the type, its bounds being part of it;
  * `signed d` is the coefficient with its sign, so that `d` stands for
    `signed d / 10 ^ d.scale`;
  * `compare a b` is the order of the numbers, by cross-multiplication;
  * `ofParts?` builds a decimal from parts that may be out of bounds, and
    `ofNat`, `ofUInt64` take whole numbers that fit.
-/
import Matchbook.Decimal.PowerOfTen

namespace Matchbook

/-- The coefficients of decimals lie below this bound. -/
abbrev Decimal.coefficientBound : Nat := 79228162514264337593543950336

/-- The largest number of fraction digits. -/
abbrev Decimal.maxScale : Nat := 28

/-- A decimal number of at most 28 fraction digits and 96 bits. -/
structure Decimal where
  /-- Whether a minus sign stands in front. -/
  negative : Bool
  /-- The digits, read as one natural number. -/
  coefficient : Nat
  /-- How many of the digits are fraction digits. -/
  scale : Nat
  coefficient_lt : coefficient < Decimal.coefficientBound
  scale_le : scale ≤ Decimal.maxScale
  deriving DecidableEq

/-- Why a computation on decimals has no result. -/
inductive ArithmeticError where
  | additionOverflow
  | subtractionOverflow
  | multiplicationOverflow
  | divisionOverflow
  | divisionByZero
  deriving DecidableEq, Repr

/-- The wording of an arithmetic failure. -/
def ArithmeticError.message : ArithmeticError → String
  | additionOverflow => "Addition overflowed"
  | subtractionOverflow => "Subtraction overflowed"
  | multiplicationOverflow => "Multiplication overflowed"
  | divisionOverflow => "Division overflowed"
  | divisionByZero => "Division by zero"

namespace Decimal

/-! ## Building decimals -/

/-- The decimal with these parts, if they are within bounds; a zero has no
    minus sign. -/
def ofParts? (negative : Bool) (coefficient scale : Nat) : Option Decimal :=
  if h : coefficient < coefficientBound ∧ scale ≤ maxScale then
    some ⟨negative && coefficient != 0, coefficient, scale, h.1, h.2⟩
  else
    none

/-- A whole number that is small enough. -/
def ofNat (n : Nat) (h : n < coefficientBound) : Decimal :=
  ⟨false, n, 0, h, Nat.zero_le _⟩

/-- Zero, without fraction digits. -/
def zero : Decimal := ofNat 0 (by decide)

instance : Inhabited Decimal := ⟨zero⟩

/-- A number of milliseconds as a decimal: the 64-bit numbers all fit. -/
def ofUInt64 (n : UInt64) : Decimal :=
  ofNat n.toNat (Nat.lt_trans n.toNat_lt (by decide))

/-! ## The number that is meant -/

/-- The coefficient with its sign. -/
def signed (d : Decimal) : Int :=
  if d.negative then -(d.coefficient : Int) else d.coefficient

/-- Whether the number is zero. -/
def isZero (d : Decimal) : Bool := d.coefficient == 0

/-- The order of the numbers: both coefficients brought to the product of the
    two denominators. -/
def compare (a b : Decimal) : Ordering :=
  Ord.compare (a.signed * powerOfTen b.scale) (b.signed * powerOfTen a.scale)

instance : Ord Decimal := ⟨compare⟩

/-- Whether the number is below zero; a zero with a minus sign is not. -/
def isBelowZero (d : Decimal) : Bool := decide (d.signed < 0)

/-- The number with the opposite sign; zero stays as it is. -/
def neg (d : Decimal) : Decimal :=
  if d.isZero then d else { d with negative := !d.negative }

/-- The integer part, if it is not negative and a 64-bit number. -/
def toUInt64? (d : Decimal) : Option UInt64 :=
  let n := d.coefficient / powerOfTen d.scale
  if d.negative && n != 0 then none
  else if n < UInt64.size then some (UInt64.ofNat n) else none

@[simp] theorem signed_zero : zero.signed = 0 := rfl

theorem isBelowZero_iff (d : Decimal) : d.isBelowZero = true ↔ d.signed < 0 := by
  simp [isBelowZero]

theorem isZero_iff (d : Decimal) : d.isZero = true ↔ d.signed = 0 := by
  unfold isZero signed
  split <;> simp

end Decimal
end Matchbook
