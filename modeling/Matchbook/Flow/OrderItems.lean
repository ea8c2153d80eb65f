/-
  Orders in a graph of unit flow: each item is a node whose capacity is its
  quantity, and the items of an order are a collection capped at the order's
  number of tokens.

  * `LoadedOrder.place` adds an order to a graph;
  * `itemNodes` are the nodes of its items, with the items, and `hasCapacity`
    says that the order can take part in one more trade.
-/
import Matchbook.Flow.Stream
import Matchbook.Order.Loaded

namespace Matchbook

open Matchbook.Flow

/-- Adds a node for each item, all with the same role, to the graph and to the
    collection. -/
def placeItems (isSink : Bool) :
    List OrderItem → Collection Order → Graph OrderItem →
      Except Failure Unit × Collection Order × Graph OrderItem
  | [], c, g => (.ok (), c, g)
  | i :: is, c, g =>
    match c.add (g.addNode i i.quantity.toNat isSink) g.nextNode with
    | (.error e, c, g) => (.error e, c, g)
    | (.ok _, c, g) => placeItems isSink is c g

/-- Adds an order to a graph. -/
def LoadedOrder.place (o : LoadedOrder) (isSink : Bool) (g : Graph OrderItem) :
    Except Failure Unit × Collection Order × Graph OrderItem :=
  let (c, g) := g.newCollection o.order o.order.numItems.toNat
  placeItems isSink o.items c g

namespace Flow.Collection

/-- The nodes of the items of an order, with the items. -/
def itemNodes (c : Collection Order) (g : Graph OrderItem) : List (NodeKey × OrderItem) :=
  (c.members g).filterMap fun k => (g.node? k).map fun n => (k, n.data)

/-- Whether the order can take part in one more unit of flow. -/
def hasCapacity (c : Collection Order) (g : Graph OrderItem) : Bool :=
  decide (c.flow g < c.maxFlow)

end Flow.Collection
end Matchbook
