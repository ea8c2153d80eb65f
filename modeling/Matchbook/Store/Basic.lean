/-
  The store of orders and items in memory.

  * `Store` is two tables, of orders and of items, each by its id;
  * `insert` puts an order in place of the one of its id, dropping the items that
    named it, and then the new items; `remove` drops an order and the items that
    name it;
  * `order?` and `itemsOf` are the reads by order, `find` the pages of a query
    (`StoreError` is what a read can fail with).
-/
import Matchbook.Query.Basic
import Matchbook.Store.Table

namespace Matchbook

/-- Why a read of a store fails. -/
inductive StoreError where
  | notFound (what : String)
  | serialization (what : String)
  | backend (what : String)
  deriving DecidableEq, Repr

namespace StoreError

/-- The name of the kind of failure. -/
def name : StoreError → String
  | notFound _ => "NotFound"
  | serialization _ => "Serialization"
  | backend _ => "Backend"

/-- The wording of a failure. -/
def message : StoreError → String
  | notFound s => "Not found: " ++ s
  | serialization s => "Serialization error: " ++ s
  | backend s => "Backend error: " ++ s

end StoreError

/-- Orders and items. -/
structure Store where
  orders : Table Order.id
  items : Table OrderItem.id

namespace Store

/-- The store that holds nothing. -/
def empty : Store := ⟨.empty, .empty⟩

instance : Inhabited Store := ⟨empty⟩

/-! ## Writing -/

/-- Drops the items that name an order. -/
def dropItems (s : Store) (orderId : String) : Store :=
  { s with items := s.items.keep (·.orderId != orderId) }

/-- Adds or replaces an item. -/
def putItem (s : Store) (item : OrderItem) : Store := { s with items := s.items.insert item }

/-- Adds or replaces an order together with its items. -/
def insert (s : Store) (order : Order) (items : List OrderItem) : Store :=
  let s := items.foldl putItem (s.dropItems order.id)
  { s with orders := s.orders.insert order }

/-- Drops an order together with its items, and says whether there was one. -/
def remove (s : Store) (orderId : String) : Bool × Store :=
  let s := s.dropItems orderId
  ((s.orders.get? orderId).isSome, { s with orders := s.orders.erase orderId })

/-! ## Reading -/

/-- The number of orders. -/
def orderCount (s : Store) : Nat := s.orders.size

/-- The order of an id. -/
def order? (s : Store) (orderId : String) : Option Order := s.orders.get? orderId

/-- The items that name an order, by id. -/
def itemsOf (s : Store) (orderId : String) : List OrderItem :=
  s.items.rows.filter (·.orderId == orderId)

/-- The page of a query.  Comparisons on more than one field are refused. -/
def find (s : Store) (q : Query) : Except StoreError (List OrderItem) :=
  if 1 < q.comparedFields.length then
    .error (.backend ("range filters on more than one field: [" ++
      ", ".intercalate (q.comparedFields.map (·.title)) ++ "]"))
  else .ok (q.page s.items.rows)

end Store
end Matchbook
