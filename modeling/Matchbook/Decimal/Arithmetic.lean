/-
  Arithmetic on decimals.  Every operation computes an exact result and rounds
  it once, half to even; it fails only if the integer part does not fit.

  * `add`, `sub`: an operand that is zero leaves the other one as it is, its
    number of fraction digits included;
  * `mul`: the product of the coefficients, with the sum of the fraction digits;
  * `div`: long division, up to nine digits at a time, until it comes out even,
    28 fraction digits are reached or the coefficient is full (`Division`);
    then trailing zeros are dropped in runs of eight, four, two and one;
  * `ceil`: the least whole number that is not below;
  * `sum`: from zero, left to right.
-/
import Matchbook.Decimal.Rounding

namespace Matchbook.Decimal

/-! ## Sum, difference and product -/

/-- Both numbers over the larger of the two denominators, combined by `op`. -/
def combine (op : Int → Int → Int) (a b : Decimal) : Option Decimal :=
  let s := max a.scale b.scale
  let n := op (a.signed * powerOfTen (s - a.scale)) (b.signed * powerOfTen (s - b.scale))
  fit (decide (n < 0)) n.natAbs s

/-- The sum, rounded once. -/
def add (a b : Decimal) : Except ArithmeticError Decimal :=
  if a.isZero then .ok b
  else if b.isZero then .ok a
  else match combine (· + ·) a b with
    | some c => .ok c
    | none => .error .additionOverflow

/-- The difference, rounded once. -/
def sub (a b : Decimal) : Except ArithmeticError Decimal :=
  if a.isZero then .ok b.neg
  else if b.isZero then .ok a
  else match combine (· - ·) a b with
    | some c => .ok c
    | none => .error .subtractionOverflow

/-- The product, rounded once. -/
def mul (a b : Decimal) : Except ArithmeticError Decimal :=
  if a.isZero || b.isZero then .ok zero
  else match fit (a.negative != b.negative) (a.coefficient * b.coefficient) (a.scale + b.scale) with
    | some c => .ok c
    | none => .error .multiplicationOverflow

/-- The sum of a list, from zero and left to right. -/
def sum (xs : List Decimal) : Except ArithmeticError Decimal :=
  xs.foldlM add zero

/-! ## Division -/

/-- A long division under way: the quotient so far, the remainder, how many
    digits of the quotient are fraction digits (less than none while whole
    places are still missing), and whether a remainder has ever been left. -/
structure Division where
  quotient : Nat
  remainder : Nat
  scale : Int
  inexact : Bool

namespace Division

/-- Takes the last digit off a quotient that is too long, half to even;
    `sticky` says that something nonzero was cut off behind it. -/
def shorten (q : Nat) (scale : Int) (sticky : Bool) : Option (Nat × Int) :=
  if scale ≤ 0 then none
  else
    let up := q % 10 > 5 || (q % 10 == 5 && (sticky || q / 10 % 2 == 1))
    some (if up then q / 10 + 1 else q / 10, scale - 1)

/-- The most digits, up to nine, that can be brought down while the quotient
    stays below the bound and has at most 28 fraction digits. -/
def room (q : Nat) (scale : Int) : Nat :=
  let most := min 9 (28 - scale).toNat
  ((List.range (most + 1)).reverse.find? fun p =>
    decide (q * powerOfTen p < coefficientBound)).getD 0

/-- The quotient, once no more digits are brought down. -/
structure Result where
  quotient : Nat
  scale : Int
  inexact : Bool

/-- Rounds the quotient on the remainder, half to even. -/
def close (d : Division) (divisor : Nat) : Option Result :=
  let up := decide (divisor < 2 * d.remainder) ||
    (2 * d.remainder == divisor && d.quotient % 2 == 1)
  let q := if up then d.quotient + 1 else d.quotient
  if q < coefficientBound then some ⟨q, d.scale, true⟩
  else (shorten q d.scale true).map fun (q, s) => ⟨q, s, true⟩

/-- One round of the division: it is finished (`inl`) or `p` more digits have
    been brought down (`inr`). -/
def bringDown (d : Division) (divisor p : Nat) : Option (Result ⊕ Division) :=
  let q₀ := d.quotient * powerOfTen p
  if coefficientBound ≤ q₀ then none
  else
    let r₀ := d.remainder * powerOfTen p
    let q := q₀ + r₀ / divisor
    let r := r₀ % divisor
    let s := d.scale + p
    if q < coefficientBound then some (.inr ⟨q, r, s, d.inexact⟩)
    else (shorten q s (r != 0)).map fun (q, s) => .inl ⟨q, s, d.inexact⟩

/-- Chooses how the division goes on. -/
def step (d : Division) (divisor : Nat) : Option (Result ⊕ Division) :=
  if d.remainder = 0 then
    if 0 ≤ d.scale then some (.inl ⟨d.quotient, d.scale, d.inexact⟩)
    else d.bringDown divisor (min 9 (-d.scale).toNat)
  else
    let d := { d with inexact := true }
    let p : Nat := if d.scale = 28 then 0 else room d.quotient d.scale
    if p < 9 && decide (d.scale + (p : Int) < 0) then none
    else if p = 0 then (d.close divisor).map .inl
    else d.bringDown divisor p

/-- Runs the division.  Every round that does not finish raises the scale, which
    stays at most 28, so `rounds` only has to cover the distance. -/
def run (divisor : Nat) : (rounds : Nat) → Division → Option Result
  | 0, _ => none
  | rounds + 1, d =>
    match d.step divisor with
    | none => none
    | some (.inl result) => some result
    | some (.inr next) => run divisor rounds next

/-- Drops runs of eight trailing zeros, as long as the 32 low bits are clear. -/
def dropEights : (rounds : Nat) → Nat → Nat → Nat × Nat
  | 0, q, s => (q, s)
  | rounds + 1, q, s =>
    if q % UInt32.size = 0 ∧ 8 ≤ s ∧ q % powerOfTen 8 = 0 then
      dropEights rounds (q / powerOfTen 8) (s - 8)
    else (q, s)

/-- Drops one run of `n` trailing zeros, if there is one. -/
def dropRun (n : Nat) : Nat × Nat → Nat × Nat
  | (q, s) =>
    if n ≤ s ∧ q % powerOfTen n = 0 then (q / powerOfTen n, s - n) else (q, s)

/-- The trailing zeros that a quotient loses: runs of eight, then at most one
    run each of four, two and one.  A quotient that came out even at once keeps
    all its digits. -/
def tidy (result : Result) : Nat × Nat :=
  let s := result.scale.toNat
  if result.inexact then dropRun 1 (dropRun 2 (dropRun 4 (dropEights 4 result.quotient s)))
  else (result.quotient, s)

end Division

/-- The quotient, rounded once. -/
def div (a b : Decimal) : Except ArithmeticError Decimal :=
  if b.isZero then .error .divisionByZero
  else if a.isZero then .ok zero
  else
    let s : Int := (a.scale : Int) - b.scale
    let start : Division :=
      ⟨a.coefficient / b.coefficient, a.coefficient % b.coefficient, s, false⟩
    match Division.run b.coefficient ((28 - s).toNat + 1) start with
    | none => .error .divisionOverflow
    | some result =>
      let (q, s) := Division.tidy result
      match ofParts? (a.negative != b.negative) q s with
      | some c => .ok c
      | none => .error .divisionOverflow

/-! ## Whole numbers -/

/-- The least whole number that is not below `d`.  A decimal without fraction
    digits is returned as it is. -/
def ceil (d : Decimal) : Decimal :=
  if d.scale = 0 then d
  else
    let whole := d.coefficient / powerOfTen d.scale
    let up := !d.negative && d.coefficient % powerOfTen d.scale != 0
    (ofParts? d.negative (if up then whole + 1 else whole) 0).getD d

end Matchbook.Decimal
