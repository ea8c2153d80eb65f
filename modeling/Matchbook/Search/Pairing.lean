/-
  Pairing: an order for one token with another order for one token.

  The root's items and the candidates' items become nodes, and every pair that
  satisfies the chain and has a deal becomes an edge.  Edges are taken in the
  order of their deals, then of the opposing order's own price, then of its id
  (`RankedEdge.compare`), as long as the orders have capacity.

  * `rankedEdges` builds the graph, `take` chooses the edges;
  * `pair` is the search.
-/
import Matchbook.Record.Stamp
import Matchbook.Rule.Chain
import Matchbook.Search.Outcome

namespace Matchbook.Search

open Matchbook.Flow

/-- An edge of the graph, with what it is ranked by. -/
structure RankedEdge where
  edge : EdgeKey
  /-- The collection of the opposing order. -/
  candidate : Collection Order
  deal : Crossing
  /-- The opposing order's own price at the time of the deal. -/
  opposingPrice : Decimal

/-- The order in which edges are taken for a root of this side. -/
def RankedEdge.compare (side : Side) (a b : RankedEdge) : Ordering :=
  (side.rank a.deal b.deal).then
    ((side.comparePrices a.opposingPrice b.opposingPrice).then
      (Ord.compare a.candidate.data.id b.candidate.data.id))

/-- All pairs of a candidate's item with a root item, candidate by candidate. -/
def nodePairs (candidates roots : List (NodeKey × OrderItem)) :
    List ((NodeKey × OrderItem) × (NodeKey × OrderItem)) :=
  candidates.flatMap fun c => roots.map fun r => (c, r)

/-- Links the pairs that satisfy the chain and have a deal. -/
def linkPairs (chain : Chain) (collection : Collection Order) :
    List ((NodeKey × OrderItem) × (NodeKey × OrderItem)) → Graph OrderItem →
      Except Interruption (List RankedEdge × Graph OrderItem)
  | [], g => .ok ([], g)
  | ((candidateKey, candidate), (rootKey, root)) :: pairs, g => do
    if !(← compute (chain.accepts root candidate)) then
      linkPairs chain collection pairs g
    else
      match ← compute (root.crossingWith candidate) with
      | none => linkPairs chain collection pairs g
      | some deal =>
        let (edge, g) ← operate (g.link rootKey candidateKey)
        let opposingPrice ← compute (candidate.ramp.priceAt deal.timestamp)
        let (edges, g) ← linkPairs chain collection pairs g
        return (⟨edge, collection, deal, opposingPrice⟩ :: edges, g)

/-- Adds the candidates for one token to the graph and links them. -/
def rankedEdges (chain : Chain) (roots : List (NodeKey × OrderItem)) :
    List LoadedOrder → Graph OrderItem → Except Interruption (List RankedEdge × Graph OrderItem)
  | [], g => .ok ([], g)
  | candidate :: candidates, g => do
    if candidate.order.numItems != 1 then rankedEdges chain roots candidates g
    else
      let (_, collection, g) ← operate (candidate.place false g)
      let (edges, g) ← linkPairs chain collection (nodePairs (collection.itemNodes g) roots) g
      let (more, g) ← rankedEdges chain roots candidates g
      return (edges ++ more, g)

/-- The items at the ends of an edge. -/
def pairOf (g : Graph OrderItem) (k : EdgeKey) : Except Failure ItemPair :=
  match g.edge? k with
  | none => .error (.unknownEdge k)
  | some e =>
    match g.node? e.sink, g.node? e.source with
    | none, _ => .error (.unknownNode e.sink)
    | some _, none => .error (.unknownNode e.source)
    | some r, some c => .ok ⟨r.data, c.data⟩

/-- Takes the edges in order while the root has capacity, passing over those
    that have none left. -/
def take (root : Collection Order) :
    List RankedEdge → Graph OrderItem → Except Interruption Outcome
  | [], _ => .ok ⟨[], []⟩
  | entry :: entries, g => do
    if !root.hasCapacity g then return ⟨[], []⟩
    else if !entry.candidate.hasCapacity g || !g.canPush entry.edge then take root entries g
    else
      let (_, g) ← operate (g.pushUnit entry.edge)
      let (pair, g) ← operate (pairOf g entry.edge, g)
      let rest ← take root entries g
      return ⟨stampOneToOne pair entry.deal :: rest.records,
        .paired pair.opposing.orderId entry.deal :: rest.events⟩

/-- Pairs the root, before failures of the graph are dealt with. -/
def tryPair (chain : Chain) (root : LoadedOrder) (candidates : List LoadedOrder) :
    Except Interruption Outcome := do
  if root.order.numItems != 1 then return .nothing (.notSingle root.order.numItems)
  else
    let (_, collection, g) ← operate (root.place true Graph.empty)
    let (edges, g) ← rankedEdges chain (collection.itemNodes g) candidates g
    take collection (edges.mergeSort fun a b => (RankedEdge.compare root.order.side a b).isLE) g

/-- The records of a root order for one token with candidates for one token. -/
def pair (chain : Chain) (root : LoadedOrder) (candidates : List LoadedOrder) :
    Except ArithmeticError Outcome :=
  orReport .pairingFailed (tryPair chain root candidates)

end Matchbook.Search
