/-
  JSON values.  Whole numbers and numbers with a fraction or an exponent are
  told apart, as they decode differently: `Json.real` holds the digits that
  identify the floating-point number of the literal.

  * `Json` is the type; an object is the list of its members;
  * `field?` looks up a member, the last one of its name counting;
  * `natural?`, `uint32?`, `uint64?`, `text?`, `flag?`, `list?` are the values
    of one shape; none of them converts between shapes.
-/
import Matchbook.Binary64

namespace Matchbook

/-- A JSON value. -/
inductive Json where
  | null
  | bool (b : Bool)
  /-- A whole number of at most 64 bits. -/
  | integer (n : Int)
  /-- Any other number: `digits * 10 ^ power`, the shortest digits of the
      floating-point number that is meant. -/
  | real (negative : Bool) (digits : Nat) (power : Int)
  | string (s : String)
  | array (items : List Json)
  | object (members : List (String × Json))
  deriving Inhabited, Repr

namespace Json

/-! ## Building -/

/-- A natural number. -/
def ofNat (n : Nat) : Json := integer n

/-- A value that may be missing, `null` if it is. -/
def ofOption {α : Type} (f : α → Json) : Option α → Json
  | none => null
  | some a => f a

/-- A list of values. -/
def ofList {α : Type} (f : α → Json) (xs : List α) : Json := array (xs.map f)

/-! ## Taking apart -/

/-- The member of this name, the last one if there are several. -/
def lookup (name : String) (members : List (String × Json)) : Option Json :=
  members.foldl (fun found (key, value) => if key = name then some value else found) none

/-- The member of an object. -/
def field? (name : String) : Json → Option Json
  | object members => lookup name members
  | _ => none

/-- A whole number that is not negative. -/
def natural? : Json → Option Nat
  | integer n => if 0 ≤ n then some n.toNat else none
  | _ => none

/-- A whole number of 32 bits. -/
def uint32? (j : Json) : Option UInt32 :=
  j.natural?.bind fun n => if n < UInt32.size then some (UInt32.ofNat n) else none

/-- A whole number of 64 bits. -/
def uint64? (j : Json) : Option UInt64 :=
  j.natural?.bind fun n => if n < UInt64.size then some (UInt64.ofNat n) else none

/-- A string. -/
def text? : Json → Option String
  | string s => some s
  | _ => none

/-- A truth value. -/
def flag? : Json → Option Bool
  | bool b => some b
  | _ => none

/-- The items of an array. -/
def list? : Json → Option (List Json)
  | array items => some items
  | _ => none

/-- `null` as `none`, everything else decoded by `f`. -/
def optional? {α : Type} (f : Json → Option α) : Json → Option (Option α)
  | null => some none
  | j => (f j).map some

/-- An array, each item decoded by `f`. -/
def listOf? {α : Type} (f : Json → Option α) (j : Json) : Option (List α) :=
  j.list?.bind (·.mapM f)

end Json
end Matchbook
