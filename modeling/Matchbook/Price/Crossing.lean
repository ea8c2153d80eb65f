/-
  Where an offer curve first reaches a listing curve.  Each side is a list of
  ramps that are added up; the deal is struck at the listing side's price.

  * `sharedWindow?` is the time that all windows have in common;
  * `spread` is the offer side's price less the listing side's;
  * `breakpoints` are the times between which both sides are straight, and
    `segments` the pieces between neighbouring ones;
  * `solve` finds the crossing inside one piece, rounded up to a millisecond;
  * `crossing` puts these together: the start of the window if the offer is
    high enough there, else the first piece at whose end it is.
-/
import Matchbook.Price.Ramp

namespace Matchbook

/-- An agreed price and the millisecond at which it is reached. -/
structure Crossing where
  price : Decimal
  timestamp : UInt64
  deriving DecidableEq

namespace PriceRamp

/-! ## The shared window -/

/-- The latest start and the earliest end, if there is time between them. -/
def sharedWindow? (ramps : List PriceRamp) : Option (UInt64 × UInt64) :=
  match (ramps.map startTime).max?, (ramps.map endTime).min? with
  | some first, some last => if first ≤ last then some (first, last) else none
  | _, _ => none

/-- The starts and ends that lie strictly inside the window, with the two ends
    of the window itself, each once and in order. -/
def breakpoints (ramps : List PriceRamp) (first last : UInt64) : List UInt64 :=
  let inner := (ramps.flatMap fun r => [r.startTime, r.endTime]).filter fun t =>
    decide (first < t) && decide (t < last)
  ((inner ++ [first, last]).mergeSort fun a b => decide (a ≤ b)).eraseReps

/-- The pieces between neighbouring times. -/
def segments (times : List UInt64) : List (UInt64 × UInt64) := times.zip times.tail

/-! ## The crossing -/

/-- What the offers pay beyond what the listings ask at `t`. -/
def spread (offers listings : List PriceRamp) (t : UInt64) : Except ArithmeticError Decimal := do
  let paid ← sumAt offers t
  let asked ← sumAt listings t
  paid.sub asked

/-- The sum of two times, or the last time there is. -/
def addClamped (a b : UInt64) : UInt64 :=
  if a.toNat + b.toNat < UInt64.size then a + b else UInt64.ofNat (UInt64.size - 1)

/-- The first of the times at which the spread is not negative, else `last`. -/
def firstPaid (offers listings : List PriceRamp) (last : UInt64) :
    List UInt64 → Except ArithmeticError UInt64
  | [] => .ok last
  | t :: times => do
    let gap ← spread offers listings t
    if gap.isBelowZero then firstPaid offers listings last times else .ok t

/-- The crossing between `a` and `b`, where the spread rises from `below`, less
    than zero, to `above`: the zero of the straight line, rounded up, or the
    millisecond after it, or `b`. -/
def solve (offers listings : List PriceRamp) (a b : UInt64) (below above : Decimal) :
    Except ArithmeticError UInt64 := do
  let product ← (Decimal.ofUInt64 (b - a)).mul below.neg
  let rise ← above.sub below
  let offset ← product.div rise
  let candidate := min (addClamped a (offset.ceil.toUInt64?.getD (b - a))) b
  firstPaid offers listings b [candidate, min (addClamped candidate 1) b]

/-- The crossing in the first piece at whose end the spread is not negative. -/
def firstCrossing (offers listings : List PriceRamp) :
    List (UInt64 × UInt64) → Except ArithmeticError (Option UInt64)
  | [] => .ok none
  | (a, b) :: rest => do
    let below ← spread offers listings a
    let above ← spread offers listings b
    if above.isBelowZero then firstCrossing offers listings rest
    else return some (← solve offers listings a b below above)

/-- The deal at `t`: the listings' price then. -/
def dealAt (listings : List PriceRamp) (t : UInt64) : Except ArithmeticError Crossing := do
  return ⟨← sumAt listings t, t⟩

/-- The deal at which the offers first pay what the listings ask, inside the
    window shared by all of them. -/
def crossing (offers listings : List PriceRamp) : Except ArithmeticError (Option Crossing) :=
  if offers.isEmpty || listings.isEmpty then .ok none
  else
    let ramps := offers ++ listings
    match sharedWindow? ramps with
    | none => .ok none
    | some (first, last) => do
      let gap ← spread offers listings first
      if !gap.isBelowZero then return some (← dealAt listings first)
      else
        match ← firstCrossing offers listings (segments (breakpoints ramps first last)) with
        | none => return none
        | some t => return some (← dealAt listings t)

end PriceRamp
end Matchbook
