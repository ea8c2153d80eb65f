/-
  Match records: what a search hands to settlement.

  * `MatchRecord` is a deal between two single tokens' orders, or between an
    order for several tokens and the orders that fill it;
  * `matchId ids` names a record by the items that take part: the hash of their
    ids in order, each followed by a line feed (`idBytes`), so that it does not
    matter from which side the match was found.
-/
import Matchbook.Hash.Sha256
import Matchbook.Order.Basic

namespace Matchbook

/-- An item and the opposing item it is matched with. -/
structure ItemPair where
  item : OrderItem
  opposing : OrderItem
  deriving DecidableEq

/-- A match. -/
inductive MatchRecord where
  /-- Two orders for one token each. -/
  | oneToOne (id : String) (pair : ItemPair) (deal : Crossing)
  /-- An order for several tokens, filled by orders for one token each. -/
  | oneToMany (id : String) (pairs : List ItemPair) (deal : Crossing)
  deriving DecidableEq

namespace MatchRecord

/-- The name of the record. -/
def id : MatchRecord → String
  | oneToOne id _ _ | oneToMany id _ _ => id

/-- The agreed price and time. -/
def deal : MatchRecord → Crossing
  | oneToOne _ _ deal | oneToMany _ _ deal => deal

/-- How many tokens a record of several pairs moves. -/
def numItems? : MatchRecord → Option Nat
  | oneToOne _ _ _ => none
  | oneToMany _ pairs _ => some pairs.length

end MatchRecord

/-- The ids in order. -/
def sortedIds (ids : List String) : List String :=
  ids.mergeSort fun a b => decide (a ≤ b)

/-- The bytes that identify a set of participants: their ids in order, each
    followed by a line feed. -/
def idBytes (ids : List String) : List UInt8 :=
  (sortedIds ids).flatMap fun id => id.toList.flatMap String.utf8EncodeChar ++ [10]

/-- The name of the match between these items. -/
def matchId (ids : List String) : String := Sha256.hex (idBytes ids)

end Matchbook
