/-
  TOML values that are single words: numbers, truth values, dates and times.

  * `grouped?` are digits with single underscores between them;
  * `readInteger?` reads a whole number of 64 bits, in decimal or with the base
    `0x`, `0o` or `0b`; `isFloat` recognizes floating-point numbers;
  * `isMoment` recognizes dates and times of the calendar;
  * `ofWord?` is the value that a word stands for, and `readWord` reads one.
-/
import Matchbook.Binary64
import Matchbook.Toml.Basic
import Matchbook.Toml.Lexical

namespace Matchbook.Toml

/-! ## Numbers -/

/-- The digits of a text in which underscores may stand between two of them. -/
def grouped? (isDigit : Char → Bool) : List Char → Option (List Char)
  | [] => none
  | [c] => if isDigit c then some [c] else none
  | c :: '_' :: rest => if isDigit c then (grouped? isDigit rest).map (c :: ·) else none
  | c :: rest => if isDigit c then (grouped? isDigit rest).map (c :: ·) else none

/-- The digits of a whole number without leading zeros. -/
def wholeDigits? (text : List Char) : Option (List Char) :=
  (grouped? Char.isDigit text).filter fun ds => ds.head? != some '0' || ds.length == 1

/-- The number that is written with these digits of a base up to sixteen. -/
def ofDigits? (base : Nat) (digits : List Char) : Option Nat :=
  digits.foldlM (fun n c => do
    let d ← Hex.value? c
    if d < base then some (n * base + d) else none) 0

/-- A whole number with its base in front. -/
def readBased? : List Char → Option Nat
  | '0' :: 'x' :: text => (grouped? (fun c => (Hex.value? c).isSome) text).bind (ofDigits? 16)
  | '0' :: 'o' :: text => (grouped? Char.isDigit text).bind (ofDigits? 8)
  | '0' :: 'b' :: text => (grouped? Char.isDigit text).bind (ofDigits? 2)
  | _ => none

/-- Reads a whole number. -/
def readInteger? (word : List Char) : Option Int :=
  let value : Option Int :=
    match readBased? word with
    | some n => some n
    | none =>
      let (negative, body) := Decimal.splitSign word
      ((wholeDigits? body).bind (ofDigits? 10)).map fun n => if negative then -(n : Int) else n
  value.filter fun n => decide (Int64.minValue.toInt ≤ n) && decide (n ≤ Int64.maxValue.toInt)

/-- The parts of a text before and behind a mark, if the mark is there. -/
def splitAt? (isMark : Char → Bool) (text : List Char) : List Char × Option (List Char) :=
  match text.dropWhile (!isMark ·) with
  | [] => (text, none)
  | _ :: behind => (text.takeWhile (!isMark ·), some behind)

/-- The digits of an optional part, none if it is missing. -/
def optionalDigits? : Option (List Char) → Option (List Char)
  | none => some []
  | some text => grouped? Char.isDigit text

/-- Whether a word without sign is a number with a fraction or an exponent that
    is not too large, unless it is `negative`. -/
def isFraction (negative : Bool) (body : List Char) : Bool :=
  let (mantissa, exponent) := splitAt? (fun c => c == 'e' || c == 'E') body
  let (whole, fraction) := splitAt? (· == '.') mantissa
  let (down, exponent) := match exponent with
    | some text => let (down, text) := Decimal.splitSign text; (down, some text)
    | none => (false, none)
  match wholeDigits? whole, optionalDigits? fraction, optionalDigits? exponent with
  | some ws, some fs, some es =>
    let n := (ofDigits? 10 (ws ++ fs)).getD 0
    let shift : Int := (ofDigits? 10 es).getD 0
    let power := (if down then -shift else shift) - fs.length
    (fraction.isSome || exponent.isSome) && (negative || (Binary64.ofDecimal? n power).isSome)
  | _, _, _ => false

/-- Whether a word is a floating-point number. -/
def isFloat (word : List Char) : Bool :=
  let (negative, body) := Decimal.splitSign word
  body == ['i', 'n', 'f'] || body == ['n', 'a', 'n'] || isFraction negative body

/-! ## Dates and times -/

/-- The number that is written with these digits, if it lies within bounds. -/
def part? (least greatest : Nat) (digits : List Char) : Option Nat :=
  (ofDigits? 10 digits).filter fun n => decide (least ≤ n) && decide (n ≤ greatest)

/-- The number of days of a month. -/
def daysOf (year month : Nat) : Nat :=
  if month = 2 then
    if year % 4 = 0 ∧ (year % 100 ≠ 0 ∨ year % 400 = 0) then 29 else 28
  else if month ∈ [4, 6, 9, 11] then 30
  else 31

/-- The text behind a date of the calendar. -/
def afterDate? : List Char → Option (List Char)
  | a :: b :: c :: d :: '-' :: e :: f :: '-' :: g :: h :: rest => do
    let year ← part? 0 9999 [a, b, c, d]
    let month ← part? 1 12 [e, f]
    let _ ← part? 1 (daysOf year month) [g, h]
    return rest
  | _ => none

/-- The text behind a time of the day, to any part of a second. -/
def afterTime? : List Char → Option (List Char)
  | a :: b :: ':' :: c :: d :: ':' :: e :: f :: rest => do
    let _ ← part? 0 23 [a, b]
    let _ ← part? 0 59 [c, d]
    let _ ← part? 0 60 [e, f]
    match rest with
    | '.' :: rest =>
      if (rest.takeWhile Char.isDigit).isEmpty then none else some (rest.dropWhile Char.isDigit)
    | rest => some rest
  | _ => none

/-- Whether a text is a distance from universal time. -/
def isOffset : List Char → Bool
  | [c] => c == 'Z' || c == 'z'
  | [sign, a, b, ':', c, d] =>
    (sign == '+' || sign == '-') && (part? 0 23 [a, b]).isSome && (part? 0 59 [c, d]).isSome
  | _ => false

/-- Whether a text is a time of the day, with or without an offset. -/
def isTimeOfDate (text : List Char) : Bool :=
  match afterTime? text with
  | some rest => rest.isEmpty || isOffset rest
  | none => false

/-- Whether a word is a date, a time, or both with `T` between them. -/
def isMoment (word : List Char) : Bool :=
  match afterDate? word with
  | some [] => true
  | some (c :: rest) => (c == 'T' || c == 't') && isTimeOfDate rest
  | none => afterTime? word == some []

/-- Whether a word is a date without a time. -/
def isDate (word : List Char) : Bool := afterDate? word == some []

/-! ## Words -/

/-- A character of a word. -/
def isWordChar (c : Char) : Bool := c.isAlphanum || ['+', '-', '_', '.', ':'].contains c

/-- The value that a word stands for. -/
def ofWord? (word : List Char) : Option Toml :=
  if word = ['t', 'r', 'u', 'e'] then some (boolean true)
  else if word = ['f', 'a', 'l', 's', 'e'] then some (boolean false)
  else
    match readInteger? word with
    | some n => some (integer n)
    | none =>
      if isMoment word then some (moment (String.ofList word))
      else if isFloat word then some (float (String.ofList word))
      else none

/-- Reads a word.  A blank may stand between a date and its time. -/
def readWord (text : List Char) : Option (Toml × List Char) :=
  let word := text.takeWhile isWordChar
  let rest := text.dropWhile isWordChar
  match if isDate word then rest else [] with
  | ' ' :: behind =>
    let time := behind.takeWhile isWordChar
    if isTimeOfDate time then
      some (moment (String.ofList (word ++ ' ' :: time)), behind.dropWhile isWordChar)
    else (ofWord? word).map (·, rest)
  | _ => (ofWord? word).map (·, rest)

end Matchbook.Toml
