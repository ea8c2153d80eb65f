/-
  Orders, items and prices as JSON documents.

  A document is an object with a member for each field; members that are not
  fields are ignored, and an array of the fields in order is read as well.
  Prices are written as strings with all their digits.

  * `Fields` are the fields of a document, by name or by position;
  * `toJson` and `ofJson?` write and read one kind of document;
  * a price is read from a string or a number (`Decimal.ofJson?`).
-/
import Matchbook.Json.Basic
import Matchbook.Order.Basic

namespace Matchbook

/-! ## Fields -/

/-- The fields of a document that is being read. -/
inductive Fields where
  | named (members : List (String × Json))
  | listed (items : List Json)

namespace Fields

/-- The fields of a document that has `count` of them. -/
def ofJson? (count : Nat) : Json → Option Fields
  | .object members => some (named members)
  | .array items => if items.length ≤ count then some (listed items) else none
  | _ => none

/-- The field of this name, at this position. -/
def get? (fields : Fields) (position : Nat) (name : String) : Option Json :=
  match fields with
  | named members => Json.lookup name members
  | listed items => items[position]?

/-- A field that must be there. -/
def read {α : Type} (fields : Fields) (position : Nat) (name : String) (f : Json → Option α) :
    Option α :=
  (fields.get? position name).bind f

/-- A field that may be missing or `null`. -/
def readOptional {α : Type} (fields : Fields) (position : Nat) (name : String)
    (f : Json → Option α) : Option (Option α) :=
  match fields.get? position name with
  | none => some none
  | some j => j.optional? f

end Fields

/-- The name of a value of an enumeration: a string, or an object with a single
    member of that name that is `null`. -/
def Json.variant? : Json → Option String
  | .string s => some s
  | .object [(name, .null)] => some name
  | _ => none

/-- The name of a value of an enumeration inside a tagged document, where the
    single member may be an empty object as well. -/
def Json.taggedVariant? : Json → Option String
  | .object [(name, .object [])] => some name
  | j => j.variant?

/-! ## Prices -/

namespace Decimal

/-- All digits, as a string. -/
def toJson (d : Decimal) : Json := .string d.toText

/-- A string, a whole number, or the digits of another number. -/
def ofJson? : Json → Option Decimal
  | .string s => ofText? s
  | .integer n => ofParts? (decide (n < 0)) n.natAbs 0
  | .real negative digits power =>
    readPlain ((if negative then ['-'] else []) ++ Binary64.layOut digits power)
  | _ => none

end Decimal

namespace PriceRamp

/-- A ramp as a document. -/
def toJson (r : PriceRamp) : Json := .object [
  ("start_price", r.startPrice.toJson),
  ("end_price", r.endPrice.toJson),
  ("start_time_ms", .ofNat r.startTime.toNat),
  ("end_time_ms", .ofNat r.endTime.toNat)]

/-- Reads a ramp. -/
def ofJson? (j : Json) : Option PriceRamp := do
  let fields ← Fields.ofJson? 4 j
  return {
    startPrice := ← fields.read 0 "start_price" Decimal.ofJson?
    endPrice := ← fields.read 1 "end_price" Decimal.ofJson?
    startTime := ← fields.read 2 "start_time_ms" Json.uint64?
    endTime := ← fields.read 3 "end_time_ms" Json.uint64? }

end PriceRamp

namespace Crossing

/-- A deal as a document. -/
def toJson (c : Crossing) : Json := .object [
  ("price", c.price.toJson), ("timestamp", .ofNat c.timestamp.toNat)]

/-- Reads a deal. -/
def ofJson? (j : Json) : Option Crossing := do
  let fields ← Fields.ofJson? 2 j
  return {
    price := ← fields.read 0 "price" Decimal.ofJson?
    timestamp := ← fields.read 1 "timestamp" Json.uint64? }

end Crossing

/-! ## Enumerations -/

/-- Reads a side. -/
def Side.ofJson? (j : Json) : Option Side :=
  j.variant?.bind fun s => [Side.buy, .sell].find? (·.name == s)

/-- The status of this name. -/
def Status.ofName? (s : String) : Option Status :=
  [Status.validActive, .validInactive, .invalid].find? (·.name == s)

/-- Reads a status. -/
def Status.ofJson? (j : Json) : Option Status := j.variant?.bind Status.ofName?

/-- Reads a status inside a tagged document. -/
def Status.ofTaggedJson? (j : Json) : Option Status := j.taggedVariant?.bind Status.ofName?

/-! ## Orders and items -/

namespace Order

/-- An order as a document. -/
def toJson (o : Order) : Json := .object [
  ("id", .string o.id),
  ("chainId", .string o.chainId),
  ("isSellOrder", .bool o.isSell),
  ("numItems", .ofNat o.numItems.toNat),
  ("startPriceEth", o.startPrice.toJson),
  ("endPriceEth", o.endPrice.toJson),
  ("startTimeMs", .ofNat o.startTime.toNat),
  ("endTimeMs", .ofNat o.endTime.toNat),
  ("makerAddress", .string o.maker),
  ("takerAddress", .ofOption .string o.taker),
  ("complicationAddress", .string o.complication),
  ("currencyAddress", .string o.currency),
  ("status", .string o.status.name)]

/-- Reads an order. -/
def ofJson? (j : Json) : Option Order := do
  let fields ← Fields.ofJson? 13 j
  return {
    id := ← fields.read 0 "id" Json.text?
    chainId := ← fields.read 1 "chainId" Json.text?
    isSell := ← fields.read 2 "isSellOrder" Json.flag?
    numItems := ← fields.read 3 "numItems" Json.uint32?
    startPrice := ← fields.read 4 "startPriceEth" Decimal.ofJson?
    endPrice := ← fields.read 5 "endPriceEth" Decimal.ofJson?
    startTime := ← fields.read 6 "startTimeMs" Json.uint64?
    endTime := ← fields.read 7 "endTimeMs" Json.uint64?
    maker := ← fields.read 8 "makerAddress" Json.text?
    taker := ← fields.readOptional 9 "takerAddress" Json.text?
    complication := ← fields.read 10 "complicationAddress" Json.text?
    currency := ← fields.read 11 "currencyAddress" Json.text?
    status := ← fields.read 12 "status" Status.ofJson? }

end Order

namespace OrderItem

/-- An item as a document. -/
def toJson (i : OrderItem) : Json := .object [
  ("id", .string i.id),
  ("orderId", .string i.orderId),
  ("chainId", .string i.chainId),
  ("isSellOrder", .bool i.isSell),
  ("numItems", .ofNat i.numItems.toNat),
  ("startPriceEth", i.startPrice.toJson),
  ("endPriceEth", i.endPrice.toJson),
  ("startTimeMs", .ofNat i.startTime.toNat),
  ("endTimeMs", .ofNat i.endTime.toNat),
  ("makerAddress", .string i.maker),
  ("takerAddress", .ofOption .string i.taker),
  ("complicationAddress", .string i.complication),
  ("currencyAddress", .string i.currency),
  ("status", .string i.status.name),
  ("collectionAddress", .string i.collection),
  ("tokenId", .ofOption .string i.tokenId),
  ("quantity", .ofNat i.quantity.toNat),
  ("numTokens", .ofNat i.numTokens.toNat)]

/-- Reads an item whose status is read by `status`. -/
def read (status : Json → Option Status) (j : Json) : Option OrderItem := do
  let fields ← Fields.ofJson? 18 j
  return {
    id := ← fields.read 0 "id" Json.text?
    orderId := ← fields.read 1 "orderId" Json.text?
    chainId := ← fields.read 2 "chainId" Json.text?
    isSell := ← fields.read 3 "isSellOrder" Json.flag?
    numItems := ← fields.read 4 "numItems" Json.uint32?
    startPrice := ← fields.read 5 "startPriceEth" Decimal.ofJson?
    endPrice := ← fields.read 6 "endPriceEth" Decimal.ofJson?
    startTime := ← fields.read 7 "startTimeMs" Json.uint64?
    endTime := ← fields.read 8 "endTimeMs" Json.uint64?
    maker := ← fields.read 9 "makerAddress" Json.text?
    taker := ← fields.readOptional 10 "takerAddress" Json.text?
    complication := ← fields.read 11 "complicationAddress" Json.text?
    currency := ← fields.read 12 "currencyAddress" Json.text?
    status := ← fields.read 13 "status" status
    collection := ← fields.read 14 "collectionAddress" Json.text?
    tokenId := ← fields.readOptional 15 "tokenId" Json.text?
    quantity := ← fields.read 16 "quantity" Json.uint32?
    numTokens := ← fields.read 17 "numTokens" Json.uint32? }

/-- Reads an item. -/
def ofJson? (j : Json) : Option OrderItem := read Status.ofJson? j

/-- Reads an item inside a tagged document. -/
def ofTaggedJson? (j : Json) : Option OrderItem := read Status.ofTaggedJson? j

end OrderItem
end Matchbook
