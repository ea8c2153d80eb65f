/-
  Writing JSON text, without blanks, members in their order.

  * `quoted` is a string between quotes; quotes, backslashes and control
    characters are escaped;
  * `Json.toText` is the text of a value.
-/
import Matchbook.Json.Basic
import Matchbook.Text.Hex

namespace Matchbook.Json

/-- A character inside a string. -/
def quotedChar (c : Char) : List Char :=
  if c = '"' then ['\\', '"']
  else if c = '\\' then ['\\', '\\']
  else if c.toNat < 32 then '\\' :: 'u' :: '0' :: '0' :: Hex.byte c.toNat
  else [c]

/-- A string between quotes. -/
def quoted (s : String) : String :=
  String.ofList ('"' :: s.toList.flatMap quotedChar ++ ['"'])

mutual

/-- The text of a value. -/
def toText : Json → String
  | null => "null"
  | bool true => "true"
  | bool false => "false"
  | integer n => toString n
  | real negative digits power =>
    (if negative then "-" else "") ++ toString digits ++ "e" ++ toString power
  | string s => quoted s
  | array items => "[" ++ itemsText items ++ "]"
  | object members => "\x7b" ++ membersText members ++ "\x7d"

/-- The items of an array, separated by commas. -/
def itemsText : List Json → String
  | [] => ""
  | [item] => toText item
  | item :: items => toText item ++ "," ++ itemsText items

/-- The members of an object, separated by commas. -/
def membersText : List (String × Json) → String
  | [] => ""
  | [(name, value)] => quoted name ++ ":" ++ toText value
  | (name, value) :: members => quoted name ++ ":" ++ toText value ++ "," ++ membersText members

end

end Matchbook.Json
