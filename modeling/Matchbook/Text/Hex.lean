/-
  Hexadecimal text.

  * `Hex.digit` writes one digit, `Hex.byte` two, and `Hex.natural` as many as a
    number needs, all in lower case;
  * `Hex.value?` and `Hex.number?` read digits of either case, and
    `Hex.character?` reads the digits of a code point.
-/
namespace Matchbook.Hex

/-! ## Writing -/

/-- The digit of a number below sixteen. -/
def digit (n : Nat) : Char := Char.ofNat (if n < 10 then 48 + n else 87 + n)

/-- The two digits of a number below 256. -/
def byte (n : Nat) : List Char := [digit (n / 16), digit (n % 16)]

/-- The last `count` digits of `n`, followed by `rest`. -/
def digitsOnto : (count n : Nat) → (rest : List Char) → List Char
  | 0, _, rest => rest
  | count + 1, n, rest => digitsOnto count (n / 16) (digit (n % 16) :: rest)

/-- The digits of a number, without leading zeros. -/
def natural (n : Nat) : List Char := digitsOnto (Nat.log2 n / 4 + 1) n []

/-! ## Reading -/

/-- The value of a digit. -/
def value? (c : Char) : Option Nat :=
  if '0' ≤ c ∧ c ≤ '9' then some (c.toNat - 48)
  else if 'a' ≤ c ∧ c ≤ 'f' then some (c.toNat - 87)
  else if 'A' ≤ c ∧ c ≤ 'F' then some (c.toNat - 55)
  else none

/-- The number that is written with these digits. -/
def number? (cs : List Char) : Option Nat :=
  (cs.mapM value?).map (·.foldl (fun n d => n * 16 + d) 0)

/-- The character of a code point; surrogates are no characters. -/
def ofCodePoint? (n : Nat) : Option Char :=
  if h : n.isValidChar then some (Char.ofNatAux n h) else none

/-- The character whose code point is written with these digits. -/
def character? (cs : List Char) : Option Char := (number? cs).bind ofCodePoint?

theorem value?_digit (n : Nat) (h : n < 16) : value? (digit n) = some n := by
  revert n; decide

end Matchbook.Hex
