/-
  Prospects: the deals that a root order could make with its candidates, without
  the graph.

  * `prospects` are the pairs of a candidate's item with a root item that satisfy
    the chain and have a deal, candidate by candidate (`Prospect`);
  * `Prospect.compare` is the order in which they are tried, and `isOpen` says that
    both items stand for a token;
  * `prospects_perm`: in this order they are the same in whatever order the
    candidates come.
-/
import Matchbook.Proofs.Except
import Matchbook.Proofs.Search.Ranking
import Matchbook.Search.Pairing

namespace Matchbook

namespace Search

/-! ## Prospects -/

/-- A deal between two items, with what it is ranked by. -/
structure Prospect where
  /-- The opposing order. -/
  order : Order
  pair : ItemPair
  deal : Crossing
  /-- The opposing order's own price at the time of the deal. -/
  opposingPrice : Decimal

namespace Prospect

/-- The order in which prospects are tried for a root of this side. -/
def compare (side : Side) (a b : Prospect) : Ordering :=
  (side.rank a.deal b.deal).then
    ((side.comparePrices a.opposingPrice b.opposingPrice).then
      (Ord.compare a.order.id b.order.id))

/-- Whether both items stand for a token. -/
def isOpen (p : Prospect) : Bool :=
  decide (0 < p.pair.item.quantity.toNat) && decide (0 < p.pair.opposing.quantity.toNat)

/-- What comes of the prospect that is chosen, if there is one. -/
def settle : Option Prospect → Outcome
  | none => ⟨[], []⟩
  | some p => ⟨[stampOneToOne p.pair p.deal], [.paired p.pair.opposing.orderId p.deal]⟩

instance (side : Side) : Std.TransCmp (compare side) :=
  have := transCmp_on side.rank Prospect.deal
  have := transCmp_on side.comparePrices Prospect.opposingPrice
  inferInstanceAs (Std.TransCmp (compareLex (fun a b : Prospect => side.rank a.deal b.deal)
    (compareLex (fun a b : Prospect => side.comparePrices a.opposingPrice b.opposingPrice)
      (compareOn fun p : Prospect => p.order.id))))

/-- Prospects with one order tie only. -/
theorem id_eq_of_compare {side : Side} {a b : Prospect} (h : compare side a b = .eq) :
    a.order.id = b.order.id := by
  rw [compare, Ordering.then_eq_eq, Ordering.then_eq_eq] at h
  exact Std.LawfulEqOrd.eq_of_compare h.2.2

end Prospect

/-- The deal of a pair of items, if it satisfies the chain and has one. -/
def prospect? (chain : Chain) (order : Order) (pair : ItemPair) :
    Except ArithmeticError (Option Prospect) := do
  if !(← chain.accepts pair.item pair.opposing) then return none
  else
    match ← pair.item.crossingWith pair.opposing with
    | none => return none
    | some deal => return some ⟨order, pair, deal, ← pair.opposing.ramp.priceAt deal.timestamp⟩

/-- The pairs of the items of two orders. -/
def itemPairs (candidates roots : List OrderItem) : List ItemPair :=
  candidates.flatMap fun c => roots.map fun r => ⟨r, c⟩

/-- The deals of some pairs with the items of an order. -/
def prospectsOf (chain : Chain) (order : Order) (pairs : List ItemPair) :
    Except ArithmeticError (List Prospect) := do
  return (← pairs.mapM (prospect? chain order)).filterMap id

/-- The deals with all candidates for one token. -/
def prospects (chain : Chain) (roots : List OrderItem) (candidates : List LoadedOrder) :
    Except ArithmeticError (List Prospect) := do
  return (← (candidates.filter (·.order.numItems == 1)).mapM fun c =>
    prospectsOf chain c.order (itemPairs c.items roots)).flatten

/-! ## The order of the candidates -/

variable {chain : Chain}

theorem order_eq_of_prospect? {order : Order} {pair : ItemPair} {p : Prospect}
    (h : prospect? chain order pair = .ok (some p)) : p.order = order := by
  obtain ⟨accepted, -, h⟩ := bind_eq_ok.1 h
  split at h
  · cases h
  · obtain ⟨deal, -, h⟩ := bind_eq_ok.1 h
    cases deal with
    | none => cases h
    | some deal =>
      obtain ⟨price, -, h⟩ := bind_eq_ok.1 h
      cases h
      rfl

/-- The deals with the items of an order are deals with this order. -/
theorem order_eq_of_mem_prospectsOf {order : Order} {pairs : List ItemPair} {ps : List Prospect}
    (h : prospectsOf chain order pairs = .ok ps) {p : Prospect} (hp : p ∈ ps) :
    p.order = order := by
  obtain ⟨found, hfound, h⟩ := bind_eq_ok.1 h
  cases h
  obtain ⟨hall, rfl⟩ := (mapM_eq_ok_iff none).1 hfound
  obtain ⟨_, hmem, hp⟩ := List.mem_filterMap.1 hp
  obtain ⟨pair, hpair, rfl⟩ := List.mem_map.1 hmem
  have hpair := hall pair hpair
  rw [show (prospect? chain order pair).toOption.getD none = some p from hp] at hpair
  exact order_eq_of_prospect? hpair

/-- In the order in which they are tried, the prospects do not depend on the order
    of the candidates. -/
theorem prospects_perm (side : Side) {roots : List OrderItem}
    {candidates candidates' : List LoadedOrder} (hp : candidates.Perm candidates')
    (hd : (candidates.map (·.order.id)).Nodup)
    {ps : List Prospect} (h : prospects chain roots candidates = .ok ps) :
    ∃ ps', prospects chain roots candidates' = .ok ps' ∧
      ps'.mergeSort (fun a b => (Prospect.compare side a b).isLE) =
        ps.mergeSort fun a b => (Prospect.compare side a b).isLE := by
  obtain ⟨found, hfound, h⟩ := bind_eq_ok.1 h
  cases h
  have hsingles := hp.filter (·.order.numItems == 1)
  obtain ⟨hall, rfl⟩ := (mapM_eq_ok_iff []).1 hfound
  refine ⟨_, bind_eq_ok.2 ⟨_, mapM_eq_ok_perm [] hfound hsingles, rfl⟩, ?_⟩
  rw [← List.flatMap_def, ← List.flatMap_def]
  refine (mergeSort_flatMap_perm hsingles _ ?_).symm
  have hids :
      (candidates.filter (·.order.numItems == 1)).Pairwise fun c d => c.order.id ≠ d.order.id :=
    (List.pairwise_map.1 hd).filter _
  refine hids.imp_of_mem fun {c d} hc hd hcd p hp q hq he => hcd ?_
  rw [← order_eq_of_mem_prospectsOf (hall c hc) hp, ← order_eq_of_mem_prospectsOf (hall d hd) hq]
  exact Prospect.id_eq_of_compare he

end Search
end Matchbook
