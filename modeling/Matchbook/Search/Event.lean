/-
  Events: what loading and searching report on their way.

  * `Event` is one report; `level`, `message` and `fields` are how it is logged.
-/
import Matchbook.Flow.Graph
import Matchbook.Json.Basic
import Matchbook.Order.Loaded

namespace Matchbook

/-- How important an event is. -/
inductive Level where
  | debug
  | info
  | warn
  | error
  deriving DecidableEq, Repr

/-- The name of a level. -/
def Level.name : Level → String
  | debug => "debug"
  | info => "info"
  | warn => "warn"
  | error => "error"

/-- An order whose items are not its items, or incomplete, in words. -/
def invalidOrderMessage (orderId : String) (defect : Defect) : String :=
  "Invalid order " ++ orderId ++ ": " ++ defect.message

/-- Something worth reporting. -/
inductive Event where
  /-- The items of an order were accepted. -/
  | itemsBound (orderId : String) (items : Nat)
  /-- The store answered a query. -/
  | queryAnswered (returned : Nat)
  /-- All candidates of an item were read. -/
  | candidatesEnumerated (item : String) (found : Nat)
  /-- There are more candidate orders than wanted. -/
  | candidatesCapped (found cap : Nat)
  /-- A candidate order is not stored any more. -/
  | candidateVanished (orderId : String)
  /-- A candidate order has a defect. -/
  | candidateInvalid (orderId : String) (defect : Defect)
  /-- No item of a candidate order satisfies the chain. -/
  | candidateRejected (orderId : String)
  | searchCompleted (candidateDocs candidateOrders rejected matched requiresScan : Nat)
  /-- The root of a pairing is not for one token. -/
  | notSingle (numItems : UInt32)
  | paired (opposingOrder : String) (deal : Crossing)
  | pairingFailed (failure : Flow.Failure)
  /-- The root of a filling is not for several tokens. -/
  | notMultiple (numItems : UInt32)
  /-- The root of a filling does not name all its tokens. -/
  | notSpecified
  | notFilled (total : Nat) (numItems : UInt32) (candidates : Nat)
  /-- The candidates that reached an item do not fill it. -/
  | itemNotFilled (item : String)
  | filled (items : Nat) (deal : Crossing)
  | neverCross
  | fillingFailed (failure : Flow.Failure)
  deriving DecidableEq

namespace Event

/-- How important the event is. -/
def level : Event → Level
  | searchCompleted _ _ _ _ _ => .info
  | candidateVanished _ | candidateInvalid _ _ | itemNotFilled _ => .warn
  | pairingFailed _ | fillingFailed _ => .error
  | _ => .debug

/-- What happened, in words. -/
def message : Event → String
  | itemsBound _ _ => "bound order items"
  | queryAnswered _ => "memory store query"
  | candidatesEnumerated _ _ => "enumerated candidates"
  | candidatesCapped _ _ => "capping candidate orders"
  | candidateVanished _ => "candidate order no longer exists"
  | candidateInvalid _ _ => "skipping invalid candidate order"
  | candidateRejected _ => "candidate rejected by constraint chain"
  | searchCompleted _ _ _ _ _ => "search complete"
  | notSingle _ => "root is not a single-item order"
  | paired _ _ => "paired"
  | pairingFailed _ => "one-to-one search failed"
  | notMultiple _ => "root is not a multi-item order"
  | notSpecified => "root order is not fully specified"
  | notFilled _ _ _ => "bundle not filled"
  | itemNotFilled _ => "flowed bundle rejected for item"
  | filled _ _ => "bundle filled"
  | neverCross => "bundle price curves never cross"
  | fillingFailed _ => "one-to-many search failed"

/-- The details of the event. -/
def fields : Event → List (String × Json)
  | itemsBound orderId items => [("order_id", .string orderId), ("items", .ofNat items)]
  | queryAnswered returned => [("returned", .ofNat returned)]
  | candidatesEnumerated item found => [("item", .string item), ("found", .ofNat found)]
  | candidatesCapped found cap => [("found", .ofNat found), ("cap", .ofNat cap)]
  | candidateVanished orderId | candidateRejected orderId => [("order_id", .string orderId)]
  | candidateInvalid orderId defect => [("error", .string (invalidOrderMessage orderId defect))]
  | searchCompleted docs orders rejected matched requiresScan => [
    ("candidate_docs", .ofNat docs),
    ("candidate_orders", .ofNat orders),
    ("rejected", .ofNat rejected),
    ("matches", .ofNat matched),
    ("requires_scan", .ofNat requiresScan)]
  | notSingle n | notMultiple n => [("num_items", .ofNat n.toNat)]
  | paired order deal => [
    ("opposing_order", .string order),
    ("price", .string deal.price.trimmed),
    ("timestamp", .ofNat deal.timestamp.toNat)]
  | pairingFailed failure | fillingFailed failure =>
    [("error", .string ("Graph error: " ++ failure.message))]
  | notSpecified | neverCross => []
  | notFilled total numItems candidates => [
    ("total", .ofNat total),
    ("num_items", .ofNat numItems.toNat),
    ("candidates", .ofNat candidates)]
  | itemNotFilled item => [("item", .string item)]
  | filled items deal => [
    ("items", .ofNat items),
    ("price", .string deal.price.trimmed),
    ("timestamp", .ofNat deal.timestamp.toNat)]

/-- The event as a line of a log. -/
def toJson (e : Event) : Json := .object [
  ("level", .string e.level.name),
  ("message", .string e.message),
  ("fields", .object e.fields)]

end Event
end Matchbook
