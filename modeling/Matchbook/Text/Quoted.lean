/-
  Quoted text for people to read: every character can be told from the others.

  * `quotedChar` writes a character inside quotes: quotes and backslashes behind
    a backslash, the usual controls by their letters, and other characters that
    cannot be seen by their code points;
  * `quotedText` writes a whole text between quotes.
-/
import Matchbook.Text.Hex
import Matchbook.Text.Invisible

namespace Matchbook

/-- The letter of a character that has an escape of one letter. -/
def escapeLetter? (c : Char) : Option Char :=
  if c = '\x00' then some '0'
  else if c = '\t' then some 't'
  else if c = '\r' then some 'r'
  else if c = '\n' then some 'n'
  else if c = '"' ∨ c = '\\' then some c
  else none

/-- A character inside quotes. -/
def quotedChar (c : Char) : List Char :=
  match escapeLetter? c with
  | some letter => ['\\', letter]
  | none =>
    if isInvisible c then ['\\', 'u', '\x7b'] ++ Hex.natural c.toNat ++ ['\x7d'] else [c]

/-- A text between quotes. -/
def quotedText (s : String) : String :=
  String.ofList ('"' :: s.toList.flatMap quotedChar ++ ['"'])

end Matchbook
