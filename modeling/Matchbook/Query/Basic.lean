/-
  Queries for stored items: filters, an order, a place to resume from and a
  limit.

  * `Filter` is a condition on one field; a missing value satisfies no
    comparison;
  * `SortKey` orders items by some fields, always ending with the id, so that
    no two stored items tie (`SortKey.compare`);
  * `SortKey.cursor` is the place of an item in that order, and `Query.isAfter`
    says that an item comes strictly behind the query's place;
  * `Query.accepts` is the conjunction of the filters, and
    `Query.comparedFields` the fields that carry a comparison.
-/
import Matchbook.Query.Field

namespace Matchbook

/-! ## Filters -/

/-- The comparisons that a filter can make. -/
inductive Comparison where
  | lt
  | le
  | gt
  | ge
  deriving DecidableEq, Repr

/-- Whether a value that compares so to the bound satisfies the comparison. -/
def Comparison.accepts : Comparison → Ordering → Bool
  | lt, o => o == .lt
  | le, o => o != .gt
  | gt, o => o == .gt
  | ge, o => o != .lt

/-- A condition on one field. -/
inductive Filter where
  /-- The field has this value. -/
  | equal (field : Field) (value : Value)
  /-- The field has one of these values. -/
  | oneOf (field : Field) (values : List Value)
  /-- The field has a value, and it compares so to the bound. -/
  | range (field : Field) (comparison : Comparison) (bound : Value)
  deriving DecidableEq, Repr

namespace Filter

/-- The field that is looked at. -/
def field : Filter → Field
  | equal f _ | oneOf f _ | range f _ _ => f

/-- Whether the filter compares. -/
def isRange : Filter → Bool
  | range _ _ _ => true
  | _ => false

/-- Whether the item satisfies the filter. -/
def accepts (filter : Filter) (item : OrderItem) : Bool :=
  match filter with
  | equal f v => item.value f == v
  | oneOf f vs => vs.contains (item.value f)
  | range f c bound => item.value f != .null && c.accepts (compare (item.value f) bound)

end Filter

/-! ## Order and place -/

/-- The fields to order by, before the id. -/
structure SortKey where
  leading : List Field
  deriving DecidableEq, Repr

/-- A place in an order: the values of an item there. -/
abbrev Cursor := List Value

namespace SortKey

/-- Orders by these fields; the id is left out, as it always comes last. -/
def ofFields (fields : List Field) : SortKey := ⟨fields.filter (· != .id)⟩

/-- Orders by the id alone. -/
def byId : SortKey := ⟨[]⟩

instance : Inhabited SortKey := ⟨byId⟩

/-- All fields that decide the order. -/
def fields (key : SortKey) : List Field := key.leading ++ [.id]

/-- The place of an item. -/
def cursor (key : SortKey) (item : OrderItem) : Cursor := key.fields.map item.value

/-- The order of items: that of their places. -/
def compare (key : SortKey) (a b : OrderItem) : Ordering :=
  Ord.compare (key.cursor a) (key.cursor b)

end SortKey

/-! ## Queries -/

/-- What to look for, and in which order to return it. -/
structure Query where
  filters : List Filter
  sortKey : SortKey
  /-- Only items strictly behind this place are wanted. -/
  startAfter : Option Cursor
  /-- No more than this many items are wanted. -/
  limit : Option Nat
  deriving DecidableEq, Repr

namespace Query

/-- All items, by id. -/
def all : Query := ⟨[], .byId, none, none⟩

/-- Adds a filter behind the others. -/
def filter (q : Query) (f : Filter) : Query := { q with filters := q.filters ++ [f] }

/-- Whether the item satisfies all filters. -/
def accepts (q : Query) (item : OrderItem) : Bool := q.filters.all (·.accepts item)

/-- Whether the item comes strictly behind the query's place. -/
def isAfter (q : Query) (item : OrderItem) : Bool :=
  match q.startAfter with
  | none => true
  | some cursor => compare (q.sortKey.cursor item) cursor == .gt

/-- The fields that carry a comparison, each once. -/
def comparedFields (q : Query) : List Field :=
  Field.all.filter fun f => q.filters.any fun g => g.isRange && g.field == f

/-- The items in the query's order; items at the same place keep their order. -/
def sort (q : Query) (items : List OrderItem) : List OrderItem :=
  items.mergeSort fun a b => (q.sortKey.compare a b).isLE

/-- The positions of the items in a list, in the query's order. -/
def ranking (q : Query) (items : List OrderItem) : List Nat :=
  (items.zipIdx.mergeSort fun a b => (q.sortKey.compare a.1 b.1).isLE).map (·.2)

/-- The page of a query over some items: those that match and come behind its
    place, in its order, as many as it wants. -/
def page (q : Query) (items : List OrderItem) : List OrderItem :=
  let found := q.sort (items.filter fun i => q.accepts i && q.isAfter i)
  match q.limit with
  | none => found
  | some n => found.take n

end Query
end Matchbook
