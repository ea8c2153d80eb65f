/-
  Reading TOML text.

  * `readValue` reads a value; arrays may go over several lines, tables between
    braces may not;
  * `readLine` reads one line and adds what it says to the document;
  * `Toml.ofText?` reads a whole text: the members of its outermost table.
-/
import Matchbook.Toml.Scalar

namespace Matchbook.Toml

/-! ## Values -/

mutual

/-- Reads a value that stands `depth` values deep. -/
def readValue : (fuel depth : Nat) → List Char → Option (Toml × List Char)
  | 0, _, _ => none
  | fuel + 1, depth, text =>
    match text with
    | '"' :: rest => (StringForm.start '"' rest).map fun (s, rest) => (string s, rest)
    | '\'' :: rest => (StringForm.start '\'' rest).map fun (s, rest) => (string s, rest)
    | '[' :: rest => if depth + 1 < depthBound then readItems fuel (depth + 1) [] rest else none
    | '\x7b' :: rest =>
      if depthBound ≤ depth + 1 then none
      else
        match skipBlanks rest with
        | '\x7d' :: rest => some (table .inline [], rest)
        | rest => readMembers fuel (depth + 1) [] rest
    | _ => readWord text

/-- Reads the items of an array, up to the closing bracket.  A comma may stand
    behind the last item. -/
def readItems : (fuel depth : Nat) → (out : List Toml) → List Char → Option (Toml × List Char)
  | 0, _, _, _ => none
  | fuel + 1, depth, out, text =>
    match skipLines text with
    | none => none
    | some (']' :: rest) => some (array out.reverse, rest)
    | some text =>
      match readValue fuel depth text with
      | none => none
      | some (item, rest) =>
        match skipLines rest with
        | some (',' :: rest) => readItems fuel depth (item :: out) rest
        | some (']' :: rest) => some (array (item :: out).reverse, rest)
        | _ => none

/-- Reads the members of a table between braces that has some, up to the closing
    brace. -/
def readMembers : (fuel depth : Nat) → Members → List Char → Option (Toml × List Char)
  | 0, _, _, _ => none
  | fuel + 1, depth, members, text =>
    match readPath text with
    | some (path, key, '=' :: rest) =>
      match readValue fuel depth (skipBlanks rest) with
      | none => none
      | some (value, rest) =>
        match assign path key value .inline members with
        | none => none
        | some members =>
          match skipBlanks rest with
          | ',' :: rest => readMembers fuel depth members rest
          | '\x7d' :: rest => some (table .inline members, rest)
          | _ => none
    | _ => none

end

/-! ## Lines -/

/-- A document that is being read: its members, and the path of the table that
    lines belong to. -/
structure Document where
  header : List String
  members : Members

/-- Reads a header behind its bracket and makes its table the current one. -/
def readHeader (d : Document) (text : List Char) : Option (Document × List Char) :=
  match text with
  | '[' :: rest =>
    match readPath rest with
    | some (path, key, ']' :: ']' :: rest) => do
      return (⟨path ++ [key], ← append path key d.members⟩, ← endLine rest)
    | _ => none
  | _ =>
    match readPath text with
    | some (path, key, ']' :: rest) => do
      return (⟨path ++ [key], ← define path key d.members⟩, ← endLine rest)
    | _ => none

/-- Reads a key with its value. -/
def readAssignment (d : Document) (text : List Char) : Option (Document × List Char) :=
  match readPath text with
  | some (path, key, '=' :: rest) => do
    let (value, rest) ← readValue (rest.length + 1) 0 (skipBlanks rest)
    return ({ d with members := ← assignBelow d.header path key value d.members }, ← endLine rest)
  | _ => none

/-- Reads the first line of a text that does not start with blanks. -/
def readLine (d : Document) : List Char → Option (Document × List Char)
  | '[' :: rest => readHeader d rest
  | text => readAssignment d text

/-- Reads lines to the end of the text; `fuel` bounds their number. -/
def readLines : (fuel : Nat) → Document → List Char → Option Document
  | 0, _, _ => none
  | fuel + 1, d, text =>
    match endLine text with
    | some [] => some d
    | some rest => readLines fuel d rest
    | none =>
      match readLine d (skipBlanks text) with
      | some (d, rest) => readLines fuel d rest
      | none => none

/-- Reads a text; a byte order mark may stand in front. -/
def ofText? (text : String) : Option Members :=
  let cs := match text.toList with
    | '\ufeff' :: rest => rest
    | cs => cs
  (readLines (cs.length + 1) ⟨[], []⟩ cs).map (·.members)

end Matchbook.Toml
