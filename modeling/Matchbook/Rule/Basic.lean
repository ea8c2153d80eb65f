/-
  The rules that two order items must satisfy to be matched.  The item is the
  one that a match is looked for, the candidate an item of another order.

  * `Rule` names the rules, and `Violation` says which one a candidate breaks
    and by what (`Violation.rule`, `Violation.detail`);
  * `Rule.check` tests a candidate.  Only the price rule computes, so only it
    can fail to give an answer.
-/
import Matchbook.Order.Basic

namespace Matchbook

/-- A rule of the match. -/
inductive Rule where
  | status
  | side
  | chainId
  | collection
  | tokenId
  | quantity
  | endTime
  | startTime
  | price
  | distinctMaker
  | taker
  | complication
  | currency
  deriving DecidableEq, Repr

namespace Rule

/-- All rules, in their order. -/
def all : List Rule :=
  [status, side, chainId, collection, tokenId, quantity, endTime, startTime, price,
   distinctMaker, taker, complication, currency]

theorem mem_all (r : Rule) : r ∈ all := by cases r <;> decide

/-- The name of a rule in a document. -/
def name : Rule → String
  | status => "status"
  | side => "side"
  | chainId => "chainId"
  | collection => "collection"
  | tokenId => "tokenId"
  | quantity => "quantity"
  | endTime => "endTime"
  | startTime => "startTime"
  | price => "price"
  | distinctMaker => "distinctMaker"
  | taker => "taker"
  | complication => "complication"
  | currency => "currency"

/-- The name of a rule in a message. -/
def title : Rule → String
  | status => "Status"
  | side => "Side"
  | chainId => "ChainId"
  | collection => "Collection"
  | tokenId => "TokenId"
  | quantity => "Quantity"
  | endTime => "EndTime"
  | startTime => "StartTime"
  | price => "Price"
  | distinctMaker => "DistinctMaker"
  | taker => "Taker"
  | complication => "Complication"
  | currency => "Currency"

/-- The rule of this name. -/
def ofName? (s : String) : Option Rule := all.find? (·.name == s)

end Rule

/-! ## Violations -/

/-- How a candidate, or a bundle of them, breaks a rule. -/
inductive Violation where
  | inactive (status : Status)
  | sameSide (side : Side)
  | otherChain (candidate item : String)
  | otherCollection (candidate item : String)
  | otherToken (candidate item : String)
  | otherAmount (candidate item : UInt32)
  | endsTooEarly (candidateEnd itemStart : UInt64)
  | startsTooLate (candidateStart itemEnd : UInt64)
  | neverCross (item candidate : PriceRamp)
  | sameMaker (maker : String)
  | itemReserved (taker : String)
  | candidateReserved (taker : String)
  | otherComplication (candidate item : String)
  | otherCurrency (candidate item : String)
  /-- A bundle holds another number of tokens than the item needs. -/
  | bundleQuantity (moved needed : UInt32)
  /-- The number of tokens of a bundle is not a 32-bit number. -/
  | bundleOverflow
  /-- The price curves of a bundle and the item never cross. -/
  | bundleNeverCross
  deriving DecidableEq

namespace Violation

/-- The rule that is broken. -/
def rule : Violation → Rule
  | inactive _ => .status
  | sameSide _ => .side
  | otherChain _ _ => .chainId
  | otherCollection _ _ => .collection
  | otherToken _ _ => .tokenId
  | otherAmount _ _ | bundleQuantity _ _ | bundleOverflow => .quantity
  | endsTooEarly _ _ => .endTime
  | startsTooLate _ _ => .startTime
  | neverCross _ _ | bundleNeverCross => .price
  | sameMaker _ => .distinctMaker
  | itemReserved _ | candidateReserved _ => .taker
  | otherComplication _ _ => .complication
  | otherCurrency _ _ => .currency

/-- A ramp by its two prices. -/
def span (r : PriceRamp) : String := r.startPrice.trimmed ++ ".." ++ r.endPrice.trimmed

/-- What is wrong, in words. -/
def detail : Violation → String
  | inactive s => "candidate status is " ++ s.name
  | sameSide s => "both orders are " ++ s.title
  | otherChain c i => "chain " ++ c ++ " != " ++ i
  | otherCollection c i => "collection " ++ c ++ " != " ++ i
  | otherToken c i => "token " ++ c ++ " != " ++ i
  | otherAmount c i => "numTokens " ++ toString c ++ " != " ++ toString i
  | endsTooEarly c i =>
    "candidate ends at " ++ toString c ++ " before item starts at " ++ toString i
  | startsTooLate c i =>
    "candidate starts at " ++ toString c ++ " after item ends at " ++ toString i
  | neverCross i c => "price curves never cross (" ++ span i ++ " vs " ++ span c ++ ")"
  | sameMaker m => "same maker " ++ m
  | itemReserved t => "item is reserved for " ++ t
  | candidateReserved t => "candidate is reserved for " ++ t
  | otherComplication c i => "pricing engine " ++ c ++ " != " ++ i
  | otherCurrency c i => "currency " ++ c ++ " != " ++ i
  | bundleQuantity n needed =>
    "bundle moves " ++ toString n ++ " items, item needs " ++ toString needed
  | bundleOverflow => "bundle quantities overflow"
  | bundleNeverCross => "bundle price curves never cross"

/-- The rule and what is wrong. -/
def message (v : Violation) : String := v.rule.title ++ ": " ++ v.detail

/-- The rules that are broken by some of the violations, in the order of all
    rules and each once. -/
def brokenRules (vs : List Violation) : List Rule := Rule.all.filter fun r => vs.any (·.rule == r)

theorem mem_brokenRules {vs : List Violation} {r : Rule} :
    r ∈ brokenRules vs ↔ ∃ v ∈ vs, v.rule = r := by
  simp [brokenRules, Rule.mem_all]

end Violation

/-! ## Checking -/

/-- A text without the difference between large and small ASCII letters. -/
def foldCase (s : String) : List Char := s.toList.map Char.toLower

namespace Rule

/-- The violation, unless the condition holds. -/
def require (holds : Bool) (v : Violation) : Except ArithmeticError (Option Violation) :=
  .ok (if holds then none else some v)

/-- The token rule: two items that both name a token name the same one. -/
def checkToken (item candidate : OrderItem) : Option Violation :=
  match item.token?, candidate.token? with
  | some i, some c => if i = c then none else some (.otherToken c i)
  | _, _ => none

/-- The reservation rule: an order that is reserved for a party only meets
    orders of that party. -/
def checkTaker (item candidate : OrderItem) : Option Violation :=
  match item.reservedFor?.filter (· != candidate.maker) with
  | some t => some (.itemReserved t)
  | none => (candidate.reservedFor?.filter (· != item.maker)).map .candidateReserved

/-- The price rule: the curves cross.  A listing of several tokens is only
    priced as a whole, so a single offer is not held against it. -/
def checkPrice (item candidate : OrderItem) : Except ArithmeticError (Option Violation) :=
  let listing := if item.isSell then item else candidate
  if item.isSell != candidate.isSell && decide (1 < listing.numItems) then .ok none
  else do
    match ← item.crossingWith candidate with
    | some _ => return none
    | none => return some (.neverCross item.ramp candidate.ramp)

/-- How the candidate breaks the rule, if it does. -/
def check (rule : Rule) (item candidate : OrderItem) : Except ArithmeticError (Option Violation) :=
  match rule with
  | status => require (candidate.status == .validActive) (.inactive candidate.status)
  | side => require (item.isSell != candidate.isSell) (.sameSide item.side)
  | chainId => require (item.chainId == candidate.chainId)
      (.otherChain candidate.chainId item.chainId)
  | collection => require (item.collection == candidate.collection)
      (.otherCollection candidate.collection item.collection)
  | tokenId => .ok (checkToken item candidate)
  | quantity => require (item.numTokens == candidate.numTokens)
      (.otherAmount candidate.numTokens item.numTokens)
  | endTime => require (decide (item.startTime ≤ candidate.endTime))
      (.endsTooEarly candidate.endTime item.startTime)
  | startTime => require (decide (candidate.startTime ≤ item.endTime))
      (.startsTooLate candidate.startTime item.endTime)
  | price => checkPrice item candidate
  | distinctMaker => require (foldCase item.maker != foldCase candidate.maker)
      (.sameMaker item.maker)
  | taker => .ok (checkTaker item candidate)
  | complication => require (item.complication == candidate.complication)
      (.otherComplication candidate.complication item.complication)
  | currency => require (item.currency == candidate.currency)
      (.otherCurrency candidate.currency item.currency)

end Rule
end Matchbook
