/-
  Orders together with their items.

  * `LoadedOrder` is an order with item documents; nothing is said about them;
  * `Order.bind` accepts the items of an order: there are some, their quantities
    add up to the order's number of tokens, and each names the order (`Defect`
    is what can be wrong, the first of these in this order);
  * `LoadedOrder.isFullySpecified` says that every item names its token.
-/
import Matchbook.Order.Basic

namespace Matchbook

/-- The quantities of some items together, if that is a 32-bit number. -/
def totalQuantity (items : List OrderItem) : Option UInt32 :=
  let total := (items.map (·.quantity.toNat)).foldr (· + ·) 0
  if total < UInt32.size then some (UInt32.ofNat total) else none

/-- What is wrong with the items of an order. -/
inductive Defect where
  | noItems
  | quantityOverflow
  /-- The quantities add up to another number than the order says. -/
  | quantityMismatch (total numItems : UInt32)
  /-- An item names another order. -/
  | strayItem (item order : String)
  deriving DecidableEq, Repr

/-- What is wrong, in words. -/
def Defect.message : Defect → String
  | noItems => "order has no items"
  | quantityOverflow => "item quantities overflow"
  | quantityMismatch total numItems =>
    "item quantities sum to " ++ toString total ++ ", numItems is " ++ toString numItems
  | strayItem item order => "item " ++ item ++ " belongs to " ++ order

/-- An order and its items. -/
structure LoadedOrder where
  order : Order
  items : List OrderItem
  deriving DecidableEq

/-- The order with these items, if they are its items and complete. -/
def Order.bind (order : Order) (items : List OrderItem) : Except Defect LoadedOrder :=
  if items.isEmpty then .error .noItems
  else
    match totalQuantity items with
    | none => .error .quantityOverflow
    | some total =>
      if total != order.numItems then .error (.quantityMismatch total order.numItems)
      else
        match items.find? fun i => i.orderId != order.id with
        | some stray => .error (.strayItem stray.id stray.orderId)
        | none => .ok ⟨order, items⟩

namespace LoadedOrder

/-- Whether there are items and every item names a token. -/
def isFullySpecified (o : LoadedOrder) : Bool := !o.items.isEmpty && o.items.all (·.hasToken)

/-- Whether some item accepts any token of its collection. -/
def isOpen (o : LoadedOrder) : Bool := o.items.any (!·.hasToken)

end LoadedOrder
end Matchbook
