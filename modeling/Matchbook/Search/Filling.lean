/-
  Filling: an order for several tokens, all named, by orders for one token each.

  The root's items are sinks that take as many units as their quantity, and the
  candidates' items are sources.  Candidates are linked in the order of their
  best standing, those that name a token before those that do not, then of their
  ids, so that the flow that is streamed round the root's items gives each the
  best candidate that is left.  There is a record only if the whole order is
  filled.

  * `standing` is the price and time by which a candidate is ranked for a root
    item, `rankedCandidates` the candidates that are linked, in this order;
  * `linkCandidates` builds the graph, `flowedPairs` reads the pairs off it;
  * `fill` is the search.
-/
import Matchbook.Bundle.Basic
import Matchbook.Record.Stamp
import Matchbook.Search.Pairing

namespace Matchbook.Search

open Matchbook.Flow

/-! ## Ranking -/

/-- The candidate's own price at the first moment at which both windows are
    open, if there is one. -/
def standing (root candidate : OrderItem) : Except ArithmeticError (Option Crossing) :=
  let first := max root.startTime candidate.startTime
  let last := min root.endTime candidate.endTime
  if first ≤ last then do
    return some ⟨← candidate.ramp.priceAt first, first⟩
  else .ok none

/-- The standing for a root item that the candidate satisfies. -/
def standingFor (chain : Chain) (candidate root : OrderItem) :
    Except ArithmeticError (Option Crossing) := do
  if ← chain.accepts root candidate then standing root candidate else return none

/-- The first of the best deals for a side. -/
def best (side : Side) : List Crossing → Option Crossing
  | [] => none
  | d :: ds => some (ds.foldl (fun b d => if side.rank b d = .gt then d else b) d)

/-- The best standing of a candidate order with any of the root's items. -/
def bestStanding (chain : Chain) (side : Side) (roots : List OrderItem) (candidate : LoadedOrder) :
    Except ArithmeticError (Option Crossing) := do
  let pairs := candidate.items.flatMap fun i => roots.map fun r => (i, r)
  let standings ← pairs.mapM fun (i, r) => standingFor chain i r
  return best side (standings.filterMap id)

/-- The order in which candidates are linked for a root of this side. -/
def compareCandidates (side : Side) (a b : Crossing × LoadedOrder) : Ordering :=
  (side.rank a.1 b.1).then
    ((compare a.2.isOpen b.2.isOpen).then (compare a.2.order.id b.2.order.id))

/-- The candidates for one token that have a standing, with it, in order. -/
def rankedCandidates (chain : Chain) (side : Side) (roots : List OrderItem)
    (candidates : List LoadedOrder) : Except ArithmeticError (List (Crossing × LoadedOrder)) := do
  let singles := candidates.filter (·.order.numItems == 1)
  let ranked ← singles.mapM fun c => do
    return (← bestStanding chain side roots c).map (·, c)
  return (ranked.filterMap id).mergeSort fun a b => (compareCandidates side a b).isLE

/-! ## The graph -/

/-- Links the pairs that satisfy the chain. -/
def linkAccepted (chain : Chain) :
    List ((NodeKey × OrderItem) × (NodeKey × OrderItem)) → Graph OrderItem →
      Except Interruption (Graph OrderItem)
  | [], g => .ok g
  | ((candidateKey, candidate), (rootKey, root)) :: pairs, g => do
    if ← compute (chain.accepts root candidate) then
      let (_, g) ← operate (g.link rootKey candidateKey)
      linkAccepted chain pairs g
    else linkAccepted chain pairs g

/-- Adds the candidates to the graph, in order, and links them. -/
def linkCandidates (chain : Chain) (roots : List (NodeKey × OrderItem)) :
    List LoadedOrder → Graph OrderItem → Except Interruption (Graph OrderItem)
  | [], g => .ok g
  | candidate :: candidates, g => do
    let (_, collection, g) ← operate (candidate.place false g)
    let g ← linkAccepted chain (nodePairs (collection.itemNodes g) roots) g
    linkCandidates chain roots candidates g

/-- The item at the source of each edge of a list that carries flow. -/
def flowedSources (g : Graph OrderItem) : List EdgeKey → Except Failure (List OrderItem)
  | [] => .ok []
  | k :: ks =>
    match g.edge? k with
    | none => .error (.unknownEdge k)
    | some e =>
      if e.flow = 0 then flowedSources g ks
      else
        match g.node? e.source with
        | none => .error (.unknownNode e.source)
        | some n => (flowedSources g ks).map (n.data :: ·)

/-- Each root item with the opposing items whose units reached it, in the order
    in which they were linked. -/
def flowedPairs (g : Graph OrderItem) (roots : List (NodeKey × OrderItem)) :
    Except Failure (List (OrderItem × List OrderItem)) :=
  roots.mapM fun (k, root) => do return (root, ← flowedSources g (g.edgesOf k))

/-- The first root item that its opposing items do not fill. -/
def firstUnfilled (chain : Chain) :
    List (OrderItem × List OrderItem) → Except ArithmeticError (Option OrderItem)
  | [] => .ok none
  | (root, opposing) :: rest => do
    if (← chain.checkBundle root opposing).isValid then firstUnfilled chain rest
    else return some root

/-! ## The search -/

/-- The outcome of a graph through which enough units flow. -/
def settle (chain : Chain) (order : Order) (filling : List (OrderItem × List OrderItem)) :
    Except ArithmeticError Outcome := do
  match ← firstUnfilled chain filling with
  | some item => return .nothing (.itemNotFilled item.id)
  | none =>
    let pairs := filling.flatMap fun (root, opposing) => opposing.map (ItemPair.mk root)
    match ← stampOneToMany order pairs with
    | some record => return ⟨[record], [.filled pairs.length record.deal]⟩
    | none => return .nothing .neverCross

/-- Fills the root, before failures of the graph are dealt with. -/
def tryFill (chain : Chain) (root : LoadedOrder) (candidates : List LoadedOrder) :
    Except Interruption Outcome := do
  if root.order.numItems ≤ 1 then return .nothing (.notMultiple root.order.numItems)
  else if !root.isFullySpecified then return .nothing .notSpecified
  else
    let (_, collection, g) ← operate (root.place true Graph.empty)
    let roots := collection.itemNodes g
    let ranked ← compute
      (rankedCandidates chain root.order.side (roots.map (·.2)) candidates)
    let g ← linkCandidates chain roots (ranked.map (·.2)) g
    let (total, _, g) := collection.saturate g
    if total < root.order.numItems.toNat then
      return .nothing (.notFilled total root.order.numItems ranked.length)
    else
      let (filling, _) ← operate (flowedPairs g roots, g)
      compute (settle chain root.order filling)

/-- The record of a root order for several tokens, if the candidates for one
    token fill it. -/
def fill (chain : Chain) (root : LoadedOrder) (candidates : List LoadedOrder) :
    Except ArithmeticError Outcome :=
  orReport .fillingFailed (tryFill chain root candidates)

end Matchbook.Search
