/-
  The text of decimals: writing all digits that are carried, and reading.

  * `digits n` are the decimal digits of a natural number, `toText d` the plain
    text of a decimal (as many fraction digits as its scale says) and `trimmed`
    the same without trailing zeros of the fraction;
  * `readPlain` reads a sign, digits with at most one point, and underscores
    after the first digit; digits that no longer fit are rounded away, a half
    going up, unless an underscore cuts a short number off (`Reading`);
  * `readScientific` reads a plain text, `e` or `E` and an exponent;
  * `ofText?` tries the two in this order.
-/
import Matchbook.Decimal.Arithmetic

namespace Matchbook.Decimal

/-! ## Writing -/

/-- The digit character of a number below ten. -/
def digitChar (n : Nat) : Char := Char.ofNat (48 + n % 10)

/-- The `count` last digits of `n`, followed by `rest`. -/
def digitsOnto : (count : Nat) → (n : Nat) → (rest : List Char) → List Char
  | 0, _, rest => rest
  | count + 1, n, rest => digitsOnto count (n / 10) (digitChar n :: rest)

/-- How many digits `n` has, at least one; `bound` limits the search. -/
def digitCount (bound n : Nat) : Nat :=
  ((List.range bound).find? fun k => decide (n < powerOfTen (k + 1))).getD bound + 1

/-- The digits of a number below `10 ^ 30`, without leading zeros. -/
def digits (n : Nat) : List Char := digitsOnto (digitCount 30 n) n []

/-- The text of a decimal: exactly `scale` digits behind the point, at least
    one in front of it, and no point if there is no fraction. -/
def toChars (d : Decimal) : List Char :=
  let whole := digits (d.coefficient / powerOfTen d.scale)
  let text := if d.scale = 0 then whole
    else whole ++ '.' :: digitsOnto d.scale d.coefficient []
  if d.negative then '-' :: text else text

/-- The text of a decimal as a string. -/
def toText (d : Decimal) : String := String.ofList d.toChars

/-- Drops trailing zeros of a fraction of at most `rounds` digits. -/
def dropZeros : (rounds : Nat) → Nat → Nat → Nat × Nat
  | 0, c, s => (c, s)
  | rounds + 1, c, s => if c % 10 = 0 then dropZeros rounds (c / 10) (s - 1) else (c, s)

/-- The same number without trailing zeros in the fraction; zero has neither
    fraction nor sign. -/
def normalize (d : Decimal) : Decimal :=
  if d.isZero then zero
  else
    let (c, s) := dropZeros d.scale d.coefficient d.scale
    (ofParts? d.negative c s).getD d

/-- An amount as people read it: without trailing zeros. -/
def trimmed (d : Decimal) : String := d.normalize.toText

/-! ## Reading plain text -/

/-- The value of a digit character. -/
def digitValue? (c : Char) : Option Nat :=
  if '0' ≤ c ∧ c ≤ '9' then some (c.toNat - 48) else none

/-- Numbers below this bound are short: another digit and some room to spare
    leave them within 64 bits. -/
abbrev shortBound : Nat := 1844674407370954906

/-- What has been read so far of a plain text. -/
structure Reading where
  /-- The digits, as one number. -/
  coefficient : Nat
  /-- How many of them stand behind the point. -/
  scale : Nat
  /-- Whether the point has been read. -/
  point : Bool
  /-- Whether any digit has been read. -/
  started : Bool

namespace Reading

/-- Rounds on the first digit that does not fit: five and more go up.  If that
    reaches the bound, one fraction digit is given up. -/
def roundOn (r : Reading) (digit : Nat) : Option (Nat × Nat) :=
  if digit < 5 then some (r.coefficient, r.scale)
  else if r.coefficient + 1 < coefficientBound then some (r.coefficient + 1, r.scale)
  else if r.scale = 0 then none
  else some ((r.coefficient + 1 + 4) / 10, r.scale - 1)

/-- Whether all fraction digits have been read. -/
def isFull (r : Reading) : Bool := r.point && r.scale == maxScale

/-- Whether all digits but the last one make up a short number. -/
def isShort (r : Reading) : Bool := decide (r.coefficient / 10 < shortBound)

/-- Whether a text may stand behind the last digit that counts. -/
def isIgnorable (text : List Char) : Bool :=
  text.all fun c => (digitValue? c).isSome || c == '_'

/-- Reads the characters behind the sign.  The result has the coefficient and
    the scale.  Behind the last fraction digit an underscore stands for a zero
    if the number is short; in a longer one it is passed over, as everywhere. -/
def run (r : Reading) : List Char → Option (Nat × Nat)
  | [] => if r.started then some (r.coefficient, r.scale) else none
  | c :: rest =>
    match digitValue? c with
    | some v =>
      if coefficientBound ≤ r.coefficient * 10 + v || r.isFull then
        if r.point && isIgnorable rest then r.roundOn v else none
      else
        run { r with
          coefficient := r.coefficient * 10 + v
          scale := if r.point then r.scale + 1 else r.scale
          started := true } rest
    | none =>
      if c = '.' ∧ r.point = false then run { r with point := true } rest
      else if c = '_' ∧ r.started = true then
        if r.isFull && r.isShort then
          if isIgnorable rest then r.roundOn 0 else none
        else run r rest
      else none

end Reading

/-- Takes a leading sign off; the flag says whether it is a minus. -/
def splitSign : List Char → Bool × List Char
  | '-' :: rest => (true, rest)
  | '+' :: rest => (false, rest)
  | text => (false, text)

/-- Reads a plain text. -/
def readPlain (text : List Char) : Option Decimal :=
  let (negative, body) := splitSign text
  match Reading.run ⟨0, 0, false, false⟩ body with
  | some (c, s) => ofParts? negative c s
  | none => none

/-! ## Reading with an exponent -/

/-- A number of places, at most 28: digits, possibly behind a plus sign. -/
def readPlaces (text : List Char) : Option Nat :=
  let body := match text with
    | '+' :: rest => rest
    | _ => text
  if body.isEmpty then none
  else
    match body.mapM digitValue? with
    | some ds =>
      let n := ds.foldl (fun n d => n * 10 + d) 0
      if n ≤ maxScale then some n else none
    | none => none

/-- The exponent behind `e`: a number of places, a minus sign in front of it
    turning the direction around.  The flag says whether there is one. -/
def readExponent (text : List Char) : Option (Bool × Nat) :=
  match text with
  | '-' :: places => (readPlaces places).map (true, ·)
  | places => (readPlaces places).map (false, ·)

/-- Moves the point `n` places to the left.  Beyond the last possible fraction
    digit the number is rounded, a half going away from zero; the sign stays
    even if nothing else is left. -/
def shiftLeft (d : Decimal) (n : Nat) : Option Decimal :=
  if n ≤ maxScale ∧ maxScale < d.scale + n then
    let dropped := d.scale - (maxScale - n)
    let half := if dropped = 0 then 0 else 5 * powerOfTen (dropped - 1)
    (ofParts? false ((d.coefficient + half) / powerOfTen dropped) maxScale).map fun c =>
      { c with negative := d.negative }
  else
    (ofParts? d.negative d.coefficient (d.scale + n))

/-- Moves the point `n` places to the right.  Zeros that have to be added make
    a whole number, which must fit. -/
def shiftRight (d : Decimal) (n : Nat) : Option Decimal :=
  if n ≤ d.scale then ofParts? d.negative d.coefficient (d.scale - n)
  else ofParts? d.negative (d.coefficient * powerOfTen (n - d.scale)) 0

/-- Reads a plain text with an exponent, split at the first `e` or `E`. -/
def readScientific (text : List Char) : Option Decimal :=
  let isMark (c : Char) : Bool := c == 'e' || c == 'E'
  match text.dropWhile (!isMark ·) with
  | [] => none
  | _ :: exponent =>
    match readPlain (text.takeWhile (!isMark ·)), readExponent exponent with
    | some d, some (true, n) => shiftLeft d n
    | some d, some (false, n) => shiftRight d n
    | _, _ => none

/-- Reads a text, plain or with an exponent. -/
def ofChars? (text : List Char) : Option Decimal :=
  match readPlain text with
  | some d => some d
  | none => readScientific text

/-- Reads a string, plain or with an exponent. -/
def ofText? (text : String) : Option Decimal := ofChars? text.toList

end Matchbook.Decimal
