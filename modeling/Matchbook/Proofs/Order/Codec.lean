/-
  Reading back the documents of orders, items and ramps.

  * the values of the fields are read as they were written, prices without the minus sign
    of a zero (`Decimal.ofJson?_toJson`);
  * `ofJson?_toJson`, for each kind of document: every field is found under its name;
  * `isWhole_toJson`: the text of such a document holds it;
  * `unsigned_eq`: there is nothing to lose, unless a price is a zero with a minus sign.
-/
import Matchbook.Order.Codec
import Matchbook.Proofs.Decimal.Text
import Matchbook.Proofs.Json.Text

namespace Matchbook

/-! ## The values of fields -/

namespace Json

@[simp] theorem uint32?_ofNat (n : UInt32) : (ofNat n.toNat).uint32? = some n := by
  simp [ofNat, uint32?, natural?, n.toNat_lt]

@[simp] theorem uint64?_ofNat (n : UInt64) : (ofNat n.toNat).uint64? = some n := by
  simp [ofNat, uint64?, natural?, n.toNat_lt]

@[simp] theorem optional?_ofOption (s : Option String) :
    (ofOption string s).optional? text? = some s := by
  cases s <;> rfl

theorem listOf?_ofList {α β : Type} {write : α → Json} {read : Json → Option β} {f : α → β}
    {xs : List α} (h : ∀ x ∈ xs, read (write x) = some (f x)) :
    listOf? read (ofList write xs) = some (xs.map f) := by
  show (xs.map write).mapM read = _
  induction xs with
  | nil => rfl
  | cons x xs ih =>
    obtain ⟨hx, hxs⟩ := List.forall_mem_cons.1 h
    rw [List.map_cons, List.mapM_cons, hx, ih hxs]
    rfl

theorem isWhole_ofNat {n : Nat} (h : n < UInt64.size) : IsWhole (ofNat n) :=
  .integer (Int.le_trans (by decide) (Int.natCast_nonneg n)) (Int.ofNat_lt.2 h)

@[simp] theorem isWhole_uint32 (n : UInt32) : IsWhole (ofNat n.toNat) :=
  isWhole_ofNat (Nat.lt_trans n.toNat_lt (by decide))

@[simp] theorem isWhole_uint64 (n : UInt64) : IsWhole (ofNat n.toNat) := isWhole_ofNat n.toNat_lt

@[simp] theorem isWhole_string (s : String) : IsWhole (string s) := .string s

@[simp] theorem isWhole_bool (b : Bool) : IsWhole (bool b) := .bool b

@[simp] theorem isWhole_ofOption (s : Option String) : IsWhole (ofOption string s) := by
  cases s with
  | none => exact .null
  | some s => exact .string s

end Json

@[simp] theorem Decimal.ofJson?_toJson (d : Decimal) : ofJson? d.toJson = some d.unsigned :=
  ofText?_toText d

/-- A zero with a minus sign is read from a string only, one with an exponent. -/
theorem Decimal.exists_text_of_isNegativeZero {j : Json} {d : Decimal} (h : ofJson? j = some d)
    (hd : d.IsNegativeZero) :
    ∃ text, j = .string text ∧ readScientific text.toList = some d ∧ d.scale = maxScale := by
  cases j with
  | string text => exact ⟨text, rfl, readScientific_of_isNegativeZero h hd⟩
  | integer n => exact absurd hd (not_isNegativeZero_of_ofParts? h)
  | real negative digits power => exact absurd hd (not_isNegativeZero_of_readPlain h)
  | null => cases h
  | bool b => cases h
  | array items => cases h
  | object members => cases h

@[simp] theorem Decimal.isWhole_toJson (d : Decimal) : d.toJson.IsWhole := .string _

@[simp] theorem Status.ofJson?_name (s : Status) : ofJson? (.string s.name) = some s := by
  cases s <;> rfl

@[simp] theorem Status.ofTaggedJson?_name (s : Status) :
    ofTaggedJson? (.string s.name) = some s := by
  cases s <;> rfl

/-! ## Ramps -/

namespace PriceRamp

/-- The prices in the document. -/
def prices (r : PriceRamp) : List Decimal := [r.startPrice, r.endPrice]

/-- The same ramp, no zero price having a minus sign. -/
def unsigned (r : PriceRamp) : PriceRamp :=
  { r with startPrice := r.startPrice.unsigned, endPrice := r.endPrice.unsigned }

theorem prices_unsigned (r : PriceRamp) : r.unsigned.prices = r.prices.map Decimal.unsigned := rfl

theorem unsigned_eq {r : PriceRamp} (h : ∀ p ∈ r.prices, ¬ p.IsNegativeZero) : r.unsigned = r := by
  simp only [prices, List.forall_mem_cons, ← Decimal.unsigned_eq_iff] at h
  rw [unsigned, h.1, h.2.1]

theorem ofJson?_toJson (r : PriceRamp) : ofJson? r.toJson = some r.unsigned := by
  calc ofJson? r.toJson
    _ = (do
      let startPrice ← Decimal.ofJson? r.startPrice.toJson
      let endPrice ← Decimal.ofJson? r.endPrice.toJson
      let startTime ← Json.uint64? (.ofNat r.startTime.toNat)
      let endTime ← Json.uint64? (.ofNat r.endTime.toNat)
      return { startPrice, endPrice, startTime, endTime }) := rfl
    _ = some r.unsigned := by simp [unsigned]

theorem isWhole_toJson (r : PriceRamp) : r.toJson.IsWhole := .object (by simp)

end PriceRamp

/-! ## Orders -/

namespace Order

/-- The prices in the document. -/
def prices (o : Order) : List Decimal := [o.startPrice, o.endPrice]

/-- The same order, no zero price having a minus sign. -/
def unsigned (o : Order) : Order :=
  { o with startPrice := o.startPrice.unsigned, endPrice := o.endPrice.unsigned }

theorem prices_unsigned (o : Order) : o.unsigned.prices = o.prices.map Decimal.unsigned := rfl

theorem unsigned_eq {o : Order} (h : ∀ p ∈ o.prices, ¬ p.IsNegativeZero) : o.unsigned = o := by
  simp only [prices, List.forall_mem_cons, ← Decimal.unsigned_eq_iff] at h
  rw [unsigned, h.1, h.2.1]

theorem ofJson?_toJson (o : Order) : ofJson? o.toJson = some o.unsigned := by
  calc ofJson? o.toJson
    _ = (do
      let numItems ← Json.uint32? (.ofNat o.numItems.toNat)
      let startPrice ← Decimal.ofJson? o.startPrice.toJson
      let endPrice ← Decimal.ofJson? o.endPrice.toJson
      let startTime ← Json.uint64? (.ofNat o.startTime.toNat)
      let endTime ← Json.uint64? (.ofNat o.endTime.toNat)
      let taker ← (Json.ofOption .string o.taker).optional? Json.text?
      let status ← Status.ofJson? (.string o.status.name)
      return { o with numItems, startPrice, endPrice, startTime, endTime, taker, status }) := rfl
    _ = some o.unsigned := by simp [unsigned]

theorem isWhole_toJson (o : Order) : o.toJson.IsWhole := .object (by simp)

end Order

/-! ## Items -/

namespace OrderItem

/-- The prices in the document. -/
def prices (i : OrderItem) : List Decimal := [i.startPrice, i.endPrice]

/-- The same item, no zero price having a minus sign. -/
def unsigned (i : OrderItem) : OrderItem :=
  { i with startPrice := i.startPrice.unsigned, endPrice := i.endPrice.unsigned }

theorem prices_unsigned (i : OrderItem) : i.unsigned.prices = i.prices.map Decimal.unsigned := rfl

theorem unsigned_eq {i : OrderItem} (h : ∀ p ∈ i.prices, ¬ p.IsNegativeZero) : i.unsigned = i := by
  simp only [prices, List.forall_mem_cons, ← Decimal.unsigned_eq_iff] at h
  rw [unsigned, h.1, h.2.1]

/-- An item is read back by either reader. -/
theorem read_toJson {status : Json → Option Status}
    (h : ∀ s : Status, status (.string s.name) = some s) (i : OrderItem) :
    read status i.toJson = some i.unsigned := by
  calc read status i.toJson
    _ = (do
      let numItems ← Json.uint32? (.ofNat i.numItems.toNat)
      let startPrice ← Decimal.ofJson? i.startPrice.toJson
      let endPrice ← Decimal.ofJson? i.endPrice.toJson
      let startTime ← Json.uint64? (.ofNat i.startTime.toNat)
      let endTime ← Json.uint64? (.ofNat i.endTime.toNat)
      let taker ← (Json.ofOption .string i.taker).optional? Json.text?
      let status ← status (.string i.status.name)
      let tokenId ← (Json.ofOption .string i.tokenId).optional? Json.text?
      let quantity ← Json.uint32? (.ofNat i.quantity.toNat)
      let numTokens ← Json.uint32? (.ofNat i.numTokens.toNat)
      return { i with
        numItems, startPrice, endPrice, startTime, endTime, taker, status, tokenId, quantity,
        numTokens }) := rfl
    _ = some i.unsigned := by simp [h, unsigned]

theorem ofJson?_toJson (i : OrderItem) : ofJson? i.toJson = some i.unsigned :=
  read_toJson Status.ofJson?_name i

theorem ofTaggedJson?_toJson (i : OrderItem) : ofTaggedJson? i.toJson = some i.unsigned :=
  read_toJson Status.ofTaggedJson?_name i

theorem isWhole_toJson (i : OrderItem) : i.toJson.IsWhole := .object (by simp)

end OrderItem
end Matchbook
