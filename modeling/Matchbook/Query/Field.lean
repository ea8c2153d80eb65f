/-
  The fields of stored items, and their values as queries see them.

  * `Field` names the fields that can be filtered and ordered by;
  * `Value` is a field's value; values of different shapes are ordered by
    shape, a missing value first (`Value.compare`);
  * `OrderItem.value i f` reads a field: an optional text that is missing or
    empty reads as `Value.null`.
-/
import Matchbook.Order.Basic

namespace Matchbook

/-- A field of a stored item. -/
inductive Field where
  | id
  | orderId
  | chainId
  | isSell
  | status
  | collection
  | tokenId
  | numItems
  | numTokens
  | startTime
  | endTime
  | maker
  | taker
  | complication
  | currency
  deriving DecidableEq, Repr

namespace Field

/-- All fields, in their order. -/
def all : List Field :=
  [id, orderId, chainId, isSell, status, collection, tokenId, numItems, numTokens, startTime,
   endTime, maker, taker, complication, currency]

theorem mem_all (f : Field) : f ∈ all := by cases f <;> decide

/-- The name of a field in a document. -/
def name : Field → String
  | id => "id"
  | orderId => "orderId"
  | chainId => "chainId"
  | isSell => "isSellOrder"
  | status => "status"
  | collection => "collectionAddress"
  | tokenId => "tokenId"
  | numItems => "numItems"
  | numTokens => "numTokens"
  | startTime => "startTimeMs"
  | endTime => "endTimeMs"
  | maker => "makerAddress"
  | taker => "takerAddress"
  | complication => "complicationAddress"
  | currency => "currencyAddress"

/-- The name of a field in a message. -/
def title : Field → String
  | id => "Id"
  | orderId => "OrderId"
  | chainId => "ChainId"
  | isSell => "IsSellOrder"
  | status => "Status"
  | collection => "CollectionAddress"
  | tokenId => "TokenId"
  | numItems => "NumItems"
  | numTokens => "NumTokens"
  | startTime => "StartTimeMs"
  | endTime => "EndTimeMs"
  | maker => "MakerAddress"
  | taker => "TakerAddress"
  | complication => "ComplicationAddress"
  | currency => "CurrencyAddress"

/-- The field of this name. -/
def ofName? (s : String) : Option Field := all.find? (·.name == s)

end Field

/-- The value of a field. -/
inductive Value where
  /-- No value. -/
  | null
  | bool (b : Bool)
  | int (n : UInt64)
  | str (s : String)
  deriving DecidableEq, Repr

namespace Value

/-- The order of values: by shape, then within the shape. -/
def compare : Value → Value → Ordering
  | null, null => .eq
  | null, _ => .lt
  | bool _, null => .gt
  | bool a, bool b => Ord.compare a b
  | bool _, _ => .lt
  | int _, null => .gt
  | int _, bool _ => .gt
  | int a, int b => Ord.compare a b
  | int _, str _ => .lt
  | str a, str b => Ord.compare a b
  | str _, _ => .gt

instance : Ord Value := ⟨compare⟩

/-- An optional text, missing if empty. -/
def ofText? (text : Option String) : Value :=
  match nonempty? text with
  | some s => str s
  | none => null

end Value

/-- The value of a field of an item. -/
def OrderItem.value (i : OrderItem) : Field → Value
  | .id => .str i.id
  | .orderId => .str i.orderId
  | .chainId => .str i.chainId
  | .isSell => .bool i.isSell
  | .status => .str i.status.name
  | .collection => .str i.collection
  | .tokenId => Value.ofText? i.tokenId
  | .numItems => .int i.numItems.toUInt64
  | .numTokens => .int i.numTokens.toUInt64
  | .startTime => .int i.startTime
  | .endTime => .int i.endTime
  | .maker => .str i.maker
  | .taker => Value.ofText? i.taker
  | .complication => .str i.complication
  | .currency => .str i.currency

end Matchbook
