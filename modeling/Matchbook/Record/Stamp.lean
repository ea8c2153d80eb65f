/-
  Making match records from matched items.

  * `stampOneToOne` names the deal between two items;
  * `stampOneToMany` strikes the deal between an order and the orders of the
    items that fill it, at the prices of the whole orders, and names it; there
    is no record if the curves never cross.
-/
import Matchbook.Record.Basic

namespace Matchbook

/-- The record of a deal between two items. -/
def stampOneToOne (pair : ItemPair) (deal : Crossing) : MatchRecord :=
  .oneToOne (matchId [pair.item.id, pair.opposing.id]) pair deal

/-- The record of an order that is filled by pairs of its items with opposing
    ones, if there are any and the curves cross. -/
def stampOneToMany (order : Order) (pairs : List ItemPair) :
    Except ArithmeticError (Option MatchRecord) :=
  if pairs.isEmpty then .ok none
  else do
    let own := [order.ramp]
    let others := pairs.map (·.opposing.ramp)
    let deal ← match order.side with
      | .buy => PriceRamp.crossing own others
      | .sell => PriceRamp.crossing others own
    return deal.map fun deal =>
      .oneToMany (matchId (pairs.flatMap fun p => [p.item.id, p.opposing.id])) pairs deal

end Matchbook
