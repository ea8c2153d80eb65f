/-
  The characters of TOML text: blanks, comments, line ends, strings and keys.
  A reader takes characters and gives a value with the characters that are left.

  * `skipBlanks` stays on the line, `skipLines` passes line ends and comments,
    and `endLine` is the end of a line that has nothing more to say;
  * `readString` reads a string of one of the four forms: between single or
    triple quotes or apostrophes;
  * `readKey` reads a bare or quoted key, `readPath` keys with points between.
-/
import Matchbook.Text.Hex

namespace Matchbook.Toml

/-! ## Blanks and lines -/

/-- A blank inside a line. -/
def isBlank (c : Char) : Bool := c == ' ' || c == '\t'

/-- The text without leading blanks. -/
def skipBlanks (text : List Char) : List Char := text.dropWhile isBlank

/-- The text behind a line end. -/
def newline? : List Char → Option (List Char)
  | '\n' :: rest => some rest
  | '\r' :: '\n' :: rest => some rest
  | _ => none

/-- A character that may stand in comments, and stands for itself in strings. -/
def isTextChar (c : Char) : Bool := c == '\t' || (decide (32 ≤ c.toNat) && c != '\x7f')

/-- The text without a leading comment. -/
def skipComment : List Char → List Char
  | '#' :: rest => rest.dropWhile isTextChar
  | text => text

/-- Ends a line: blanks, a comment perhaps, and a line end or the end of the text. -/
def endLine (text : List Char) : Option (List Char) :=
  match skipComment (skipBlanks text) with
  | [] => some []
  | rest => newline? rest

/-- Skips blanks, comments and line ends; `fuel` bounds the number of lines. -/
def skipLinesFrom : (fuel : Nat) → List Char → Option (List Char)
  | 0, _ => none
  | fuel + 1, text =>
    match skipBlanks text with
    | '#' :: rest => (newline? (rest.dropWhile isTextChar)).bind (skipLinesFrom fuel)
    | rest =>
      match newline? rest with
      | some rest => skipLinesFrom fuel rest
      | none => some rest

/-- Skips blanks, comments and line ends. -/
def skipLines (text : List Char) : Option (List Char) := skipLinesFrom (text.length + 1) text

/-! ## Strings -/

/-- The character of an escape of one letter. -/
def simpleEscape? (c : Char) : Option Char :=
  if c = 'b' then some '\x08'
  else if c = 't' then some '\t'
  else if c = 'n' then some '\n'
  else if c = 'f' then some '\x0c'
  else if c = 'r' then some '\r'
  else if c = '"' ∨ c = '\\' then some c
  else none

/-- Reads an escape behind its backslash. -/
def readEscape : List Char → Option (Char × List Char)
  | 'u' :: a :: b :: c :: d :: rest => (Hex.character? [a, b, c, d]).map (·, rest)
  | 'U' :: a :: b :: c :: d :: e :: f :: g :: h :: rest =>
    (Hex.character? [a, b, c, d, e, f, g, h]).map (·, rest)
  | c :: rest => (simpleEscape? c).map (·, rest)
  | [] => none

/-- The text without leading blanks and line ends; `fuel` bounds the number of
    lines. -/
def skipBreaks : (fuel : Nat) → List Char → List Char
  | 0, text => text
  | fuel + 1, text =>
    match newline? (skipBlanks text) with
    | some rest => skipBreaks fuel rest
    | none => skipBlanks text

/-- The text behind a backslash that ends its line, from the next line on that is
    not blank. -/
def joinLines? (text : List Char) : Option (List Char) :=
  (newline? (skipBlanks text)).map fun rest => skipBreaks (rest.length + 1) rest

/-- A form of strings. -/
structure StringForm where
  /-- The mark at both ends. -/
  mark : Char
  /-- Whether the mark is written three times and lines may end inside. -/
  multiline : Bool
  deriving DecidableEq, Repr

namespace StringForm

/-- Whether a backslash starts an escape. -/
def escapes (form : StringForm) : Bool := form.mark == '"'

/-- The marks at the start of a text, at most five of them. -/
def countMarks (form : StringForm) (text : List Char) : Nat :=
  ((text.take 5).takeWhile (· == form.mark)).length

/-- Reads a string behind its opening mark.  `out` holds the characters read so
    far, the last one first.  A string of several lines may end with one or two
    marks of its own before the closing three. -/
def read (form : StringForm) : (fuel : Nat) → (out : List Char) → List Char →
    Option (String × List Char)
  | 0, _, _ => none
  | fuel + 1, out, text =>
    match text with
    | [] => none
    | c :: rest =>
      if c = form.mark then
        if !form.multiline then some (String.ofList out.reverse, rest)
        else
          let marks := form.countMarks text
          if marks < 3 then form.read fuel (c :: out) rest
          else
            let inside := List.replicate (marks - 3) c
            some (String.ofList (out.reverse ++ inside), text.drop marks)
      else if c = '\\' ∧ form.escapes = true then
        match if form.multiline then joinLines? rest else none with
        | some rest => form.read fuel out rest
        | none =>
          match readEscape rest with
          | some (ch, rest) => form.read fuel (ch :: out) rest
          | none => none
      else if isTextChar c then form.read fuel (c :: out) rest
      else if form.multiline then
        match newline? text with
        | some rest => form.read fuel ('\n' :: out) rest
        | none => none
      else none

/-- Reads a string behind the first of its opening marks. -/
def start (mark : Char) (text : List Char) : Option (String × List Char) :=
  match text with
  | a :: b :: rest =>
    if a = mark ∧ b = mark then
      -- a line end directly behind the opening marks does not count
      let rest := (newline? rest).getD rest
      read ⟨mark, true⟩ (rest.length + 1) [] rest
    else read ⟨mark, false⟩ (text.length + 1) [] text
  | _ => read ⟨mark, false⟩ (text.length + 1) [] text

end StringForm

/-! ## Keys -/

/-- A character of a bare key. -/
def isKeyChar (c : Char) : Bool := c.isAlphanum || c == '_' || c == '-'

/-- Reads one key. -/
def readKey (text : List Char) : Option (String × List Char) :=
  match text with
  | '"' :: rest => StringForm.read ⟨'"', false⟩ (rest.length + 1) [] rest
  | '\'' :: rest => StringForm.read ⟨'\'', false⟩ (rest.length + 1) [] rest
  | _ =>
    let key := text.takeWhile isKeyChar
    if key.isEmpty then none else some (String.ofList key, text.dropWhile isKeyChar)

/-- Values nest less deep than this, and a path has fewer keys. -/
def depthBound : Nat := 80

/-- Reads keys with points between, and blanks around each; `fuel` is the
    greatest number of keys. -/
def readKeys : (fuel : Nat) → List Char → Option (List String × List Char)
  | 0, _ => none
  | fuel + 1, text =>
    match readKey (skipBlanks text) with
    | none => none
    | some (key, rest) =>
      match skipBlanks rest with
      | '.' :: rest => (readKeys fuel rest).map fun (keys, rest) => (key :: keys, rest)
      | rest => some ([key], rest)

/-- Reads a path: the keys that lead to a table, the last key, and the rest. -/
def readPath (text : List Char) : Option (List String × String × List Char) :=
  match readKeys (depthBound - 1) text with
  | none => none
  | some (keys, rest) => keys.getLast?.map fun key => (keys.dropLast, key, rest)

end Matchbook.Toml
