/-
  Match records as JSON documents: the member `type` is the tag that says which
  kind it is.
-/
import Matchbook.Order.Codec
import Matchbook.Record.Basic

namespace Matchbook

namespace ItemPair

/-- A pair as a document. -/
def toJson (p : ItemPair) : Json := .object [
  ("orderItem", p.item.toJson), ("opposingOrderItem", p.opposing.toJson)]

/-- Reads a pair. -/
def ofJson? (j : Json) : Option ItemPair := do
  let fields ← Fields.ofJson? 2 j
  return {
    item := ← fields.read 0 "orderItem" OrderItem.ofTaggedJson?
    opposing := ← fields.read 1 "opposingOrderItem" OrderItem.ofTaggedJson? }

end ItemPair

namespace MatchRecord

/-- A record as a document. -/
def toJson : MatchRecord → Json
  | oneToOne id pair deal => .object [
    ("type", .string "oneToOne"),
    ("id", .string id),
    ("orderItem", pair.item.toJson),
    ("opposingOrderItem", pair.opposing.toJson),
    ("price", deal.price.toJson),
    ("timestamp", .ofNat deal.timestamp.toNat)]
  | oneToMany id pairs deal => .object [
    ("type", .string "oneToMany"),
    ("id", .string id),
    ("orderItemMatches", .ofList ItemPair.toJson pairs),
    ("price", deal.price.toJson),
    ("timestamp", .ofNat deal.timestamp.toNat)]

/-- The fields of a record of either kind, and the kind.  In an array the kind
    comes first. -/
def tagged? (count : String → Nat) : Json → Option (String × Fields)
  | .object members => do
    let tag ← (Json.lookup "type" members).bind Json.text?
    return (tag, .named members)
  | .array (tag :: items) => do
    let tag ← tag.text?
    return (tag, ← Fields.ofJson? (count tag) (.array items))
  | _ => none

/-- Reads a record. -/
def ofJson? (j : Json) : Option MatchRecord := do
  let (tag, fields) ← tagged? (fun tag => if tag = "oneToOne" then 5 else 4) j
  if tag = "oneToOne" then
    let id ← fields.read 0 "id" Json.text?
    let item ← fields.read 1 "orderItem" OrderItem.ofTaggedJson?
    let opposing ← fields.read 2 "opposingOrderItem" OrderItem.ofTaggedJson?
    let price ← fields.read 3 "price" Decimal.ofJson?
    let timestamp ← fields.read 4 "timestamp" Json.uint64?
    return .oneToOne id ⟨item, opposing⟩ ⟨price, timestamp⟩
  else if tag = "oneToMany" then
    let id ← fields.read 0 "id" Json.text?
    let pairs ← fields.read 1 "orderItemMatches" (Json.listOf? ItemPair.ofJson?)
    let price ← fields.read 2 "price" Decimal.ofJson?
    let timestamp ← fields.read 3 "timestamp" Json.uint64?
    return .oneToMany id pairs ⟨price, timestamp⟩
  else none

end MatchRecord
end Matchbook
