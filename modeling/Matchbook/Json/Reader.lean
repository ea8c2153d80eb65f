/-
  Reading JSON text.  A reader takes characters and gives a value with the
  characters that are left; every step consumes some, so the number of
  characters bounds the depth.

  * `readString` reads a string behind its opening quote, escapes included;
  * `readNumber` reads a number: whole if it has neither fraction nor exponent
    and 64 bits suffice, else a floating-point number close to it
    (`Significand`);
  * `readValue` reads any value, and `Json.ofText?` a text that holds one value
    and nothing else.
-/
import Matchbook.Json.Basic
import Matchbook.Text.Hex

namespace Matchbook.Json

/-- Whether a character may stand between tokens. -/
def isBlank (c : Char) : Bool := c == ' ' || c == '\n' || c == '\r' || c == '\t'

/-- The text without leading blanks. -/
def skipBlanks (text : List Char) : List Char := text.dropWhile isBlank

/-! ## Strings -/

/-- The character of a simple escape. -/
def simpleEscape? (c : Char) : Option Char :=
  if c = 'n' then some '\n'
  else if c = 't' then some '\t'
  else if c = 'r' then some '\r'
  else if c = 'b' then some '\x08'
  else if c = 'f' then some '\x0c'
  else if c = '"' ∨ c = '\\' ∨ c = '/' then some c
  else none

/-- Reads the digits of a code point.  Beyond the 16 bits that they are for, there are two
    escapes, the surrogates. -/
def readCodePoint : List Char → Option (Char × List Char)
  | a :: b :: c :: d :: rest =>
    (Hex.number? [a, b, c, d]).bind fun high =>
      if 0xD800 ≤ high ∧ high < 0xDC00 then
        match rest with
        | '\\' :: 'u' :: e :: f :: g :: h :: rest =>
          (Hex.number? [e, f, g, h]).bind fun low =>
            if 0xDC00 ≤ low ∧ low < 0xE000 then
              (Hex.ofCodePoint? (0x10000 + (high - 0xD800) * 0x400 + (low - 0xDC00))).map (·, rest)
            else none
        | _ => none
      else (Hex.ofCodePoint? high).map (·, rest)
  | _ => none

/-- Reads an escaped character behind its backslash. -/
def readEscape : List Char → Option (Char × List Char)
  | [] => none
  | c :: rest => if c = 'u' then readCodePoint rest else (simpleEscape? c).map (·, rest)

/-- Reads a string behind its opening quote.  `out` holds the characters read
    so far, the last one first. -/
def readString : (fuel : Nat) → (out : List Char) → List Char → Option (String × List Char)
  | 0, _, _ => none
  | _ + 1, _, [] => none
  | fuel + 1, out, c :: rest =>
    if c = '"' then some (String.ofList out.reverse, rest)
    else if c = '\\' then
      match readEscape rest with
      | none => none
      | some (c, rest) => readString fuel (c :: out) rest
    else if c.toNat < 32 then none
    else readString fuel (c :: out) rest

/-! ## Numbers -/

/-- The digits at the start of a text, and the rest. -/
def spanDigits (text : List Char) : List Char × List Char :=
  (text.takeWhile Char.isDigit, text.dropWhile Char.isDigit)

/-- The number written with these digits. -/
def numberOf (digits : List Char) : Nat :=
  digits.foldl (fun n c => n * 10 + (c.toNat - 48)) 0

/-- The exponent of a number, zero if there is none. -/
def readPower : List Char → Option (Option Int × List Char)
  | c :: rest =>
    if c = 'e' ∨ c = 'E' then
      let (negative, body) := Decimal.splitSign rest
      let (ds, rest) := spanDigits body
      if ds.isEmpty then none
      else
        let n : Int := numberOf ds
        some (some (if negative then -n else n), rest)
    else some (none, c :: rest)
  | [] => some (none, [])

/-- The leading digits of a literal, as far as they fit into 64 bits, with the
    power of ten they are to be multiplied by. -/
structure Significand where
  digits : Nat
  power : Int

namespace Significand

/-- The number with a further digit, if that fits. -/
def extend? (digits : Nat) (c : Char) : Option Nat :=
  let n := digits * 10 + (c.toNat - 48)
  if n < UInt64.size then some n else none

/-- Takes digits in front of the point.  From the first one that does not fit
    they count as places only. -/
def takeWhole (s : Significand) : List Char → Significand
  | [] => s
  | c :: rest =>
    match extend? s.digits c with
    | some n => takeWhole { s with digits := n } rest
    | none => { s with power := s.power + (rest.length + 1 : Nat) }

/-- Takes digits behind the point.  From the first one that does not fit they
    are ignored. -/
def takeFraction (s : Significand) : List Char → Significand
  | [] => s
  | c :: rest =>
    match extend? s.digits c with
    | some n => takeFraction ⟨n, s.power - 1⟩ rest
    | none => s

/-- The floating-point number: that of the digits, moved by the power of ten. -/
def toBinary64? (s : Significand) : Option Binary64 :=
  (Binary64.ofRatio? s.digits 1).bind fun x => x.shift? 3 s.power

end Significand

/-- The value of a literal that is not whole, or too large to be. -/
def realOf? (negative : Bool) (whole fraction : List Char) (power : Int) : Option Json :=
  let s := (Significand.takeWhole ⟨0, 0⟩ whole).takeFraction fraction
  (Significand.mk s.digits (s.power + power)).toBinary64?.map fun x =>
    let (ds, p) := x.shortest
    real negative ds p

/-- Whether a minus sign comes first, and the text behind it. -/
def takeMinus : List Char → Bool × List Char
  | '-' :: rest => (true, rest)
  | text => (false, text)

/-- The digits behind the point of a number, if it has one. -/
def readFraction : List Char → Option (Option (List Char) × List Char)
  | '.' :: rest =>
    let (ds, rest) := spanDigits rest
    if ds.isEmpty then none else some (some ds, rest)
  | text => some (none, text)

/-- Reads a number. -/
def readNumber (text : List Char) : Option (Json × List Char) :=
  let (negative, body) := takeMinus text
  let (whole, rest) := spanDigits body
  if whole.isEmpty || (whole.head? == some '0' && whole.length > 1) then none
  else
    match readFraction rest with
    | none => none
    | some (fraction, rest) =>
      match readPower rest with
      | none => none
      | some (power, rest) =>
        let n := numberOf whole
        let isWhole := fraction.isNone && power.isNone
        if isWhole && !negative && decide (n < UInt64.size) then some (integer n, rest)
        else if isWhole && negative && decide (Int64.minValue.toInt ≤ -n) && n != 0 then
          some (integer (-n), rest)
        else
          (realOf? negative whole (fraction.getD []) (power.getD 0)).map (·, rest)

/-! ## Values -/

/-- The text behind a fixed word. -/
def afterWord : (word text : List Char) → Option (List Char)
  | [], text => some text
  | w :: word, c :: text => if w = c then afterWord word text else none
  | _ :: _, [] => none

mutual

/-- Reads a value; blanks before it are skipped. -/
def readValue : (fuel : Nat) → List Char → Option (Json × List Char)
  | 0, _ => none
  | fuel + 1, text =>
    match skipBlanks text with
    | [] => none
    | '"' :: rest => (readString (rest.length + 1) [] rest).map fun (s, rest) => (string s, rest)
    | '[' :: rest =>
      match skipBlanks rest with
      | ']' :: rest => some (array [], rest)
      | rest => readItems fuel [] rest
    | '\x7b' :: rest =>
      match skipBlanks rest with
      | '\x7d' :: rest => some (object [], rest)
      | rest => readMembers fuel [] rest
    | 't' :: rest => (afterWord ['r', 'u', 'e'] rest).map (bool true, ·)
    | 'f' :: rest => (afterWord ['a', 'l', 's', 'e'] rest).map (bool false, ·)
    | 'n' :: rest => (afterWord ['u', 'l', 'l'] rest).map (null, ·)
    | text => readNumber text

/-- Reads the items of an array that has some, up to the closing bracket. -/
def readItems : (fuel : Nat) → (out : List Json) → List Char → Option (Json × List Char)
  | 0, _, _ => none
  | fuel + 1, out, text =>
    match readValue fuel text with
    | none => none
    | some (item, rest) =>
      match skipBlanks rest with
      | ',' :: rest => readItems fuel (item :: out) rest
      | ']' :: rest => some (array (item :: out).reverse, rest)
      | _ => none

/-- Reads the members of an object that has some, up to the closing brace. -/
def readMembers : (fuel : Nat) → (out : List (String × Json)) → List Char →
    Option (Json × List Char)
  | 0, _, _ => none
  | fuel + 1, out, text =>
    match skipBlanks text with
    | '"' :: rest =>
      match readString (rest.length + 1) [] rest with
      | none => none
      | some (name, rest) =>
        match skipBlanks rest with
        | ':' :: rest =>
          match readValue fuel rest with
          | none => none
          | some (value, rest) =>
            match skipBlanks rest with
            | ',' :: rest => readMembers fuel ((name, value) :: out) rest
            | '\x7d' :: rest => some (object ((name, value) :: out).reverse, rest)
            | _ => none
        | _ => none
    | _ => none

end

/-- Reads a text that holds exactly one value. -/
def ofText? (text : String) : Option Json :=
  let cs := text.toList
  match readValue (cs.length + 1) cs with
  | some (value, rest) => if (skipBlanks rest).isEmpty then some value else none
  | none => none

end Matchbook.Json
