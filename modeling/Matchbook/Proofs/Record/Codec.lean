/-
  Reading back all documents.

  * `MatchRecord.ofJson?_toJson`: records of either kind are read back, like the documents
    they are made of;
  * `ReadsBack` says of one kind of document that nothing is lost when it is written and
    read again, but for the minus sign of a zero price; `documents_read_back` says it of
    all kinds;
  * `ramp_loses_sign`: a zero price with a minus sign can be read from a document, though
    not from what is written for it.
-/
import Matchbook.Proofs.Order.Codec
import Matchbook.Record.Codec

namespace Matchbook

/-! ## Records -/

namespace ItemPair

/-- The prices in the document. -/
def prices (p : ItemPair) : List Decimal := p.item.prices ++ p.opposing.prices

/-- The same pair, no zero price having a minus sign. -/
def unsigned (p : ItemPair) : ItemPair := ⟨p.item.unsigned, p.opposing.unsigned⟩

theorem unsigned_eq {p : ItemPair} (h : ∀ d ∈ p.prices, ¬ d.IsNegativeZero) : p.unsigned = p := by
  obtain ⟨hitem, hopposing⟩ := List.forall_mem_append.1 h
  rw [unsigned, OrderItem.unsigned_eq hitem, OrderItem.unsigned_eq hopposing]

/-- The items are found under their names. -/
theorem ofJson?_members (item opposing : Json) :
    ofJson? (.object [("orderItem", item), ("opposingOrderItem", opposing)]) = (do
      let item ← OrderItem.ofTaggedJson? item
      let opposing ← OrderItem.ofTaggedJson? opposing
      return { item, opposing }) := rfl

theorem ofJson?_toJson (p : ItemPair) : ofJson? p.toJson = some p.unsigned := by
  rw [toJson, ofJson?_members, OrderItem.ofTaggedJson?_toJson, OrderItem.ofTaggedJson?_toJson]
  rfl

theorem isWhole_toJson (p : ItemPair) : p.toJson.IsWhole :=
  .object (by simp [OrderItem.isWhole_toJson])

end ItemPair

namespace MatchRecord

/-- The prices in the document. -/
def prices : MatchRecord → List Decimal
  | oneToOne _ pair deal => deal.price :: pair.prices
  | oneToMany _ pairs deal => deal.price :: pairs.flatMap ItemPair.prices

/-- The same record, no zero price having a minus sign. -/
def unsigned : MatchRecord → MatchRecord
  | oneToOne id pair deal => .oneToOne id pair.unsigned { deal with price := deal.price.unsigned }
  | oneToMany id pairs deal =>
    .oneToMany id (pairs.map ItemPair.unsigned) { deal with price := deal.price.unsigned }

theorem prices_unsigned (r : MatchRecord) : r.unsigned.prices = r.prices.map Decimal.unsigned := by
  cases r with
  | oneToOne => rfl
  | oneToMany id pairs deal =>
    show _ :: (pairs.map ItemPair.unsigned).flatMap ItemPair.prices =
      _ :: (pairs.flatMap ItemPair.prices).map Decimal.unsigned
    rw [List.flatMap_map, List.map_flatMap]
    rfl

theorem unsigned_eq {r : MatchRecord} (h : ∀ p ∈ r.prices, ¬ p.IsNegativeZero) :
    r.unsigned = r := by
  cases r with
  | oneToOne id pair deal =>
    obtain ⟨hdeal, hpair⟩ := List.forall_mem_cons.1 h
    rw [unsigned, Decimal.unsigned_eq_iff.2 hdeal, ItemPair.unsigned_eq hpair]
  | oneToMany id pairs deal =>
    obtain ⟨hdeal, hpairs⟩ := List.forall_mem_cons.1 h
    have hpair : ∀ p ∈ pairs, p.unsigned = p := fun p hp =>
      ItemPair.unsigned_eq fun d hd => hpairs d (List.mem_flatMap.2 ⟨p, hp, hd⟩)
    rw [unsigned, Decimal.unsigned_eq_iff.2 hdeal, List.map_congr_left hpair, List.map_id']

theorem ofJson?_oneToOne (id item opposing price timestamp : Json) :
    ofJson? (.object [("type", .string "oneToOne"), ("id", id), ("orderItem", item),
      ("opposingOrderItem", opposing), ("price", price), ("timestamp", timestamp)]) = (do
        let id ← id.text?
        let item ← OrderItem.ofTaggedJson? item
        let opposing ← OrderItem.ofTaggedJson? opposing
        let price ← Decimal.ofJson? price
        let timestamp ← timestamp.uint64?
        return .oneToOne id ⟨item, opposing⟩ ⟨price, timestamp⟩) := rfl

theorem ofJson?_oneToMany (id pairs price timestamp : Json) :
    ofJson? (.object [("type", .string "oneToMany"), ("id", id), ("orderItemMatches", pairs),
      ("price", price), ("timestamp", timestamp)]) = (do
        let id ← id.text?
        let pairs ← Json.listOf? ItemPair.ofJson? pairs
        let price ← Decimal.ofJson? price
        let timestamp ← timestamp.uint64?
        return .oneToMany id pairs ⟨price, timestamp⟩) := rfl

/-- The tag says which kind of record is read. -/
theorem ofJson?_toJson (r : MatchRecord) : ofJson? r.toJson = some r.unsigned := by
  cases r with
  | oneToOne id pair deal =>
    rw [toJson, ofJson?_oneToOne, OrderItem.ofTaggedJson?_toJson, OrderItem.ofTaggedJson?_toJson,
      Decimal.ofJson?_toJson, Json.uint64?_ofNat]
    rfl
  | oneToMany id pairs deal =>
    rw [toJson, ofJson?_oneToMany, Json.listOf?_ofList fun p _ => p.ofJson?_toJson,
      Decimal.ofJson?_toJson, Json.uint64?_ofNat]
    rfl

theorem isWhole_toJson (r : MatchRecord) : r.toJson.IsWhole := by
  cases r with
  | oneToOne id pair deal => exact .object (by simp [OrderItem.isWhole_toJson])
  | oneToMany id pairs deal =>
    have hpairs : (Json.ofList ItemPair.toJson pairs).IsWhole :=
      .array (List.forall_mem_map.2 fun p _ => p.isWhole_toJson)
    exact .object (by simp [hpairs])

end MatchRecord

/-! ## All documents -/

/-- The value that the text of a document holds. -/
def Json.readText {α : Type} (read : Json → Option α) (text : String) : Option α :=
  (Json.ofText? text).bind read

theorem Json.readText_toText {α : Type} {read : Json → Option α} {j : Json} (h : j.IsWhole) :
    readText read j.toText = read j := by
  rw [readText, ofText?_toText h]
  rfl

/-- One kind of document is read back from the text that is written for it. -/
structure ReadsBack {α : Type} (write : α → Json) (read : Json → Option α)
    (prices : α → List Decimal) (unsigned : α → α) : Prop where
  /-- All of it, if no price is a zero with a minus sign. -/
  written : ∀ a, (∀ p ∈ prices a, ¬ p.IsNegativeZero) → Json.readText read (write a).toText = some a
  /-- What was read before is read again, but for the minus signs of zero prices. -/
  again : ∀ text a, Json.readText read text = some a →
    Json.readText read (write a).toText = some (unsigned a)
  /-- A price has the same digits, and as many of them behind the point. -/
  prices_unsigned : ∀ a, prices (unsigned a) = (prices a).map Decimal.unsigned

theorem readsBack {α : Type} {write : α → Json} {read : Json → Option α} {prices : α → List Decimal}
    {unsigned : α → α} (hwhole : ∀ a, (write a).IsWhole)
    (hread : ∀ a, read (write a) = some (unsigned a))
    (hsame : ∀ {a}, (∀ p ∈ prices a, ¬ p.IsNegativeZero) → unsigned a = a)
    (hprices : ∀ a, prices (unsigned a) = (prices a).map Decimal.unsigned) :
    ReadsBack write read prices unsigned where
  written a h := by rw [Json.readText_toText (hwhole a), hread, hsame h]
  again text a _ := by rw [Json.readText_toText (hwhole a), hread]
  prices_unsigned := hprices

/-- **Nothing is lost** of an order, an item, a ramp or a record that is written and read, but
    for the minus sign of a zero price; and a price with such a sign is only read from a
    string with an exponent, which rounds it at the last place that there is. -/
theorem documents_read_back :
    ReadsBack Order.toJson Order.ofJson? Order.prices Order.unsigned ∧
    ReadsBack OrderItem.toJson OrderItem.ofJson? OrderItem.prices OrderItem.unsigned ∧
    ReadsBack PriceRamp.toJson PriceRamp.ofJson? PriceRamp.prices PriceRamp.unsigned ∧
    ReadsBack MatchRecord.toJson MatchRecord.ofJson? MatchRecord.prices MatchRecord.unsigned ∧
    ∀ j d, Decimal.ofJson? j = some d → d.IsNegativeZero → ∃ text, j = .string text ∧
      Decimal.readScientific text.toList = some d ∧ d.scale = Decimal.maxScale :=
  ⟨readsBack Order.isWhole_toJson Order.ofJson?_toJson Order.unsigned_eq Order.prices_unsigned,
    readsBack OrderItem.isWhole_toJson OrderItem.ofJson?_toJson OrderItem.unsigned_eq
      OrderItem.prices_unsigned,
    readsBack PriceRamp.isWhole_toJson PriceRamp.ofJson?_toJson PriceRamp.unsigned_eq
      PriceRamp.prices_unsigned,
    readsBack MatchRecord.isWhole_toJson MatchRecord.ofJson?_toJson MatchRecord.unsigned_eq
      MatchRecord.prices_unsigned,
    fun _ _ => Decimal.exists_text_of_isNegativeZero⟩

/-- The document of a ramp whose first price is too small to be told from zero. -/
def tinyRamp : String :=
  "\x7b\"start_price\":\"-0.4e-28\",\"end_price\":\"0.10\",\"start_time_ms\":0,\"end_time_ms\":10\x7d"

theorem exists_tinyRamp : ∃ ramp, Json.readText PriceRamp.ofJson? tinyRamp = some ramp ∧
    ramp.startPrice.IsNegativeZero := by
  have hread : (Json.readText PriceRamp.ofJson? tinyRamp).map
      (fun ramp => decide ramp.startPrice.IsNegativeZero) = some true := by decide +kernel
  obtain ⟨ramp, hramp, hzero⟩ := Option.map_eq_some_iff.1 hread
  exact ⟨ramp, hramp, of_decide_eq_true hzero⟩

/-- Written and read again it has lost the sign, and then nothing more is lost. -/
theorem documents_read_back_ramp : ∃ ramp, Json.readText PriceRamp.ofJson? tinyRamp = some ramp ∧
    Json.readText PriceRamp.ofJson? ramp.toJson.toText = some ramp.unsigned ∧
      (∀ p ∈ ramp.unsigned.prices, ¬ p.IsNegativeZero) ∧
        Json.readText PriceRamp.ofJson? ramp.unsigned.toJson.toText = some ramp.unsigned := by
  obtain ⟨ramp, hramp, -⟩ := exists_tinyRamp
  obtain ⟨-, -, hramps, -, -⟩ := documents_read_back
  have hprices : ∀ p ∈ ramp.unsigned.prices, ¬ p.IsNegativeZero := by
    rw [hramps.prices_unsigned]
    exact List.forall_mem_map.2 fun p _ => p.not_isNegativeZero_unsigned
  exact ⟨ramp, hramp, hramps.again _ _ hramp, hprices, hramps.written _ hprices⟩

/-- A zero price with a minus sign is read, but not read again. -/
theorem ramp_loses_sign : ∃ ramp, Json.readText PriceRamp.ofJson? tinyRamp = some ramp ∧
    Json.readText PriceRamp.ofJson? ramp.toJson.toText ≠ some ramp := by
  obtain ⟨ramp, hramp, hzero⟩ := exists_tinyRamp
  refine ⟨ramp, hramp, fun hagain => ?_⟩
  rw [Json.readText_toText ramp.isWhole_toJson, PriceRamp.ofJson?_toJson] at hagain
  exact Decimal.unsigned_eq_iff.1 (congrArg PriceRamp.startPrice (Option.some.inj hagain)) hzero

end Matchbook
