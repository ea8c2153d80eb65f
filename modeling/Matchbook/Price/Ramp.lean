/-
  Price ramps: a price moves in a straight line from a start price to an end
  price over a window of milliseconds and is flat outside of it.

  * `priceAt r t` is the price at `t`, computed in decimals, so that equal
    ramps give equal digits;
  * `contains r t` says that `t` lies in the window, its ends included;
  * `sumAt rs t` is the price of several ramps together, added from left to
    right.
-/
import Matchbook.Decimal.Text

namespace Matchbook

/-- A straight price curve over a window of time. -/
structure PriceRamp where
  startPrice : Decimal
  endPrice : Decimal
  /-- The first millisecond of the window. -/
  startTime : UInt64
  /-- The last millisecond of the window. -/
  endTime : UInt64
  deriving DecidableEq

namespace PriceRamp

/-- The same price over the whole window. -/
def constant (price : Decimal) (startTime endTime : UInt64) : PriceRamp :=
  ⟨price, price, startTime, endTime⟩

/-- The price at `t`.  Inside the window it is
    `start + (end - start) * elapsed / duration`, in this order. -/
def priceAt (r : PriceRamp) (t : UInt64) : Except ArithmeticError Decimal :=
  if t ≤ r.startTime ∨ r.endTime ≤ r.startTime then .ok r.startPrice
  else if r.endTime ≤ t then .ok r.endPrice
  else do
    let rise ← r.endPrice.sub r.startPrice
    let product ← rise.mul (Decimal.ofUInt64 (t - r.startTime))
    let share ← product.div (Decimal.ofUInt64 (r.endTime - r.startTime))
    r.startPrice.add share

/-- Whether `t` lies in the window. -/
def contains (r : PriceRamp) (t : UInt64) : Bool :=
  decide (r.startTime ≤ t) && decide (t ≤ r.endTime)

/-- The price of all ramps together at `t`. -/
def sumAt (ramps : List PriceRamp) (t : UInt64) : Except ArithmeticError Decimal :=
  ramps.foldlM (fun total ramp => do total.add (← ramp.priceAt t)) Decimal.zero

end PriceRamp
end Matchbook
