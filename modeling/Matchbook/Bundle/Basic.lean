/-
  Bundles: several opposing items that fill one item together.

  * `Chain.checkBundle` tests a bundle: every opposing item satisfies the chain,
    the quantities add up to the item's, and the price curves cross;
  * `bundleCrossing` is the deal.  An offer pays the opposing listings together.
    A listing of one token is paid by the opposing offers together.  An item of
    a larger listing has no price of its own, so only the windows count, and the
    price is what the opposing offers pay;
  * `BundleVerdict` is the outcome.
-/
import Matchbook.Order.Loaded
import Matchbook.Rule.Chain

namespace Matchbook

/-- The outcome of the test of a bundle. -/
inductive BundleVerdict where
  /-- The bundle moves this many tokens, these among them by name. -/
  | valid (numItems : UInt32) (tokenIds : List String) (deal : Crossing)
  | invalid (violations : List Violation)
  deriving DecidableEq

/-- Whether the bundle passed. -/
def BundleVerdict.isValid : BundleVerdict → Bool
  | valid _ _ _ => true
  | invalid _ => false

/-- The deal between an item and the opposing items together. -/
def bundleCrossing (item : OrderItem) (opposing : List OrderItem) :
    Except ArithmeticError (Option Crossing) :=
  let own := item.ramp
  let others := opposing.map (·.ramp)
  match item.side with
  | .buy => PriceRamp.crossing [own] others
  | .sell =>
    if item.numItems ≤ 1 then PriceRamp.crossing others [own]
    else do
      let floor := PriceRamp.constant Decimal.zero own.startTime own.endTime
      match ← PriceRamp.crossing others [floor] with
      | none => return none
      | some deal => return some ⟨← PriceRamp.sumAt others deal.timestamp, deal.timestamp⟩

/-- What is wrong with the quantities of a bundle. -/
def quantityViolation? (item : OrderItem) (opposing : List OrderItem) : Option Violation :=
  match totalQuantity opposing with
  | some n => if n = item.quantity then none else some (.bundleQuantity n item.quantity)
  | none => some .bundleOverflow

/-- The tokens that are named by some of the items, in order and each once. -/
def tokensOf (items : List OrderItem) : List String :=
  ((items.filterMap (·.token?)).mergeSort fun a b => decide (a ≤ b)).eraseReps

/-- Tests whether the opposing items fill the item. -/
def Chain.checkBundle (chain : Chain) (item : OrderItem) (opposing : List OrderItem) :
    Except ArithmeticError BundleVerdict := do
  let broken := (← opposing.mapM (chain.violations item)).flatten
  let broken := broken ++ (quantityViolation? item opposing).toList
  match ← bundleCrossing item opposing with
  | none => return .invalid (broken ++ [.bundleNeverCross])
  | some deal =>
    if broken.isEmpty then
      return .valid ((totalQuantity opposing).getD 0) (tokensOf (item :: opposing)) deal
    else return .invalid broken

end Matchbook
