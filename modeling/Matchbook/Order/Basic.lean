/-
  Orders and their items, as they are stored.

  * `Order` is a signed order, a listing or an offer, for a number of tokens;
  * `OrderItem` is one line of an order: some tokens of one collection, named
    or not.  It repeats what the order says for all of its lines, so that it
    can be looked for by these fields (`OrderItem.ofOrder`);
  * `Side` and `Status` are their enumerations;
  * `ramp` is the price curve of a document, always that of the whole order;
  * `OrderItem.crossingWith` is where the curves of two lines' orders cross.
-/
import Matchbook.Price.Crossing

namespace Matchbook

/-! ## Enumerations -/

/-- The side of an order. -/
inductive Side where
  /-- An offer: tokens are wanted. -/
  | buy
  /-- A listing: tokens are for sale. -/
  | sell
  deriving DecidableEq, Repr

namespace Side

instance : Inhabited Side := ⟨buy⟩

/-- The side that is stored as this flag. -/
def ofIsSell (isSell : Bool) : Side := if isSell then sell else buy

/-- The flag as which a side is stored. -/
def isSell : Side → Bool
  | buy => false
  | sell => true

/-- The other side. -/
def opposite : Side → Side
  | buy => sell
  | sell => buy

/-- The name of a side in a document. -/
def name : Side → String
  | buy => "buy"
  | sell => "sell"

/-- The name of a side in a message. -/
def title : Side → String
  | buy => "Buy"
  | sell => "Sell"

@[simp] theorem ofIsSell_isSell (s : Side) : ofIsSell s.isSell = s := by cases s <;> rfl

@[simp] theorem isSell_ofIsSell (b : Bool) : (ofIsSell b).isSell = b := by cases b <;> rfl

end Side

/-- Whether an order can be matched. -/
inductive Status where
  /-- Signed, funded and inside its window. -/
  | validActive
  /-- Not yet started, or short of funds for the moment. -/
  | validInactive
  /-- Cancelled, filled or unusable for another reason. -/
  | invalid
  deriving DecidableEq, Repr

namespace Status

instance : Inhabited Status := ⟨validActive⟩

/-- The name of a status in a document. -/
def name : Status → String
  | validActive => "validActive"
  | validInactive => "validInactive"
  | invalid => "invalid"

end Status

/-! ## Documents -/

/-- A stored order. -/
structure Order where
  id : String
  chainId : String
  isSell : Bool
  /-- How many tokens the order trades, all of them or none. -/
  numItems : UInt32
  startPrice : Decimal
  endPrice : Decimal
  startTime : UInt64
  endTime : UInt64
  maker : String
  /-- The only party that may take the order, if there is one. -/
  taker : Option String
  /-- The contract that settles the price. -/
  complication : String
  currency : String
  status : Status
  deriving DecidableEq

/-- A stored line of an order. -/
structure OrderItem where
  id : String
  orderId : String
  chainId : String
  isSell : Bool
  /-- The number of tokens of the whole order. -/
  numItems : UInt32
  startPrice : Decimal
  endPrice : Decimal
  startTime : UInt64
  endTime : UInt64
  maker : String
  taker : Option String
  complication : String
  currency : String
  status : Status
  collection : String
  /-- The token that is traded; any of the collection if there is none. -/
  tokenId : Option String
  /-- How many of the order's tokens this line stands for. -/
  quantity : UInt32
  /-- The amount per token. -/
  numTokens : UInt32
  deriving DecidableEq

namespace Order

/-- The side of the order. -/
def side (o : Order) : Side := Side.ofIsSell o.isSell

/-- The price curve of the order. -/
def ramp (o : Order) : PriceRamp := ⟨o.startPrice, o.endPrice, o.startTime, o.endTime⟩

end Order

/-- An optional text, an empty one counting as missing. -/
def nonempty? (text : Option String) : Option String := text.filter (!·.isEmpty)

namespace OrderItem

/-- A line of `order`, one token each, with what the order says for all lines. -/
def ofOrder (order : Order) (id collection : String) (tokenId : Option String)
    (quantity : UInt32) : OrderItem where
  id
  orderId := order.id
  chainId := order.chainId
  isSell := order.isSell
  numItems := order.numItems
  startPrice := order.startPrice
  endPrice := order.endPrice
  startTime := order.startTime
  endTime := order.endTime
  maker := order.maker
  taker := order.taker
  complication := order.complication
  currency := order.currency
  status := order.status
  collection
  tokenId
  quantity
  numTokens := 1

/-- The side of the order. -/
def side (i : OrderItem) : Side := Side.ofIsSell i.isSell

/-- The token that the line names, if it names one. -/
def token? (i : OrderItem) : Option String := nonempty? i.tokenId

/-- Whether the line names a token. -/
def hasToken (i : OrderItem) : Bool := i.token?.isSome

/-- The party the order is reserved for, if it is reserved. -/
def reservedFor? (i : OrderItem) : Option String := nonempty? i.taker

/-- The price curve of the order. -/
def ramp (i : OrderItem) : PriceRamp := ⟨i.startPrice, i.endPrice, i.startTime, i.endTime⟩

/-- The deal between the orders of two lines, each at its whole price; there
    is none between two orders of one side. -/
def crossingWith (i j : OrderItem) : Except ArithmeticError (Option Crossing) :=
  match i.side, j.side with
  | .buy, .sell => PriceRamp.crossing [i.ramp] [j.ramp]
  | .sell, .buy => PriceRamp.crossing [j.ramp] [i.ramp]
  | _, _ => .ok none

end OrderItem
end Matchbook
