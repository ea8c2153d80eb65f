/-
  One-line summaries of orders and items, by what tells them apart.

  * `Order.summary` has the id, the side and the number of tokens,
    `OrderItem.summary` the ids of the item and its order and the token;
  * `LoadedOrder.summary` is the summary of the order and those of the items.
-/
import Matchbook.Order.Loaded
import Matchbook.Text.Quoted

namespace Matchbook

/-- A type with named parts. -/
def summaryOf (title : String) (parts : List (String × String)) : String :=
  let parts := parts.map fun (name, text) => name ++ ": " ++ text
  title ++ " \x7b " ++ ", ".intercalate parts ++ " \x7d"

/-- The order in one line. -/
def Order.summary (o : Order) : String :=
  summaryOf "Order" [
    ("id", quotedText o.id),
    ("side", o.side.title),
    ("num_items", toString o.numItems.toNat)]

/-- The item in one line. -/
def OrderItem.summary (i : OrderItem) : String :=
  summaryOf "OrderItem" [
    ("id", quotedText i.id),
    ("order_id", quotedText i.orderId),
    ("token_id", match i.tokenId with
      | some token => "Some(" ++ quotedText token ++ ")"
      | none => "None")]

/-- The order and the list of its items in one line. -/
def LoadedOrder.summary (o : LoadedOrder) : String :=
  o.order.summary ++ " [" ++ ", ".intercalate (o.items.map OrderItem.summary) ++ "]"

end Matchbook
