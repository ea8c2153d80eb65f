/-
  Chains of rules: the test of a candidate and the query for candidates.

  * `Chain.violations` lists every rule that a candidate breaks, in the order of
    the chain, and `Chain.accepts` says that there is none;
  * `Rule.filters` are the filters of a rule that a store can evaluate; the
    start time, the price and the distinct makers have none;
  * `Chain.sortKey` is the order of the most selective rule that has one
    (`Rule.selectivity`, `Rule.sortKey?`), the first of equals;
  * `Chain.query` is the query for an item's candidates.
-/
import Matchbook.Query.Basic
import Matchbook.Rule.Basic

namespace Matchbook

namespace Rule

/-- The filters that a rule adds to the query for an item's candidates. -/
def filters (rule : Rule) (item : OrderItem) : List Filter :=
  match rule with
  | status => [.equal .status (.str Status.validActive.name)]
  | side => [.equal .isSell (.bool !item.isSell)]
  | chainId => [.equal .chainId (.str item.chainId)]
  | collection => [.equal .collection (.str item.collection)]
  | tokenId =>
    match item.token? with
    | some token => [.oneOf .tokenId [.str token, .null]]
    | none => []
  | quantity => [.equal .numTokens (.int item.numTokens.toUInt64)]
  | endTime => [.range .endTime .ge (.int item.startTime)]
  | startTime | price | distinctMaker => []
  | taker =>
    .oneOf .taker [.null, .str item.maker] ::
      match item.reservedFor? with
      | some t => [.equal .maker (.str t)]
      | none => []
  | complication => [.equal .complication (.str item.complication)]
  | currency => [.equal .currency (.str item.currency)]

/-- How much a rule narrows the candidates down. -/
def selectivity : Rule → Nat
  | status => 1
  | collection => 5
  | tokenId => 10
  | _ => 0

/-- The order in which a rule would go through the candidates, if it has one. -/
def sortKey? (rule : Rule) (item : OrderItem) : Option SortKey :=
  match rule with
  | status => some (.ofFields [.status, .collection])
  | collection => some (.ofFields [.collection])
  | tokenId => if item.hasToken then some (.ofFields [.tokenId, .collection]) else none
  | _ => none

end Rule

/-- Rules that are applied together, in this order. -/
abbrev Chain := List Rule

namespace Chain

/-- All rules, those that a store can look up best first. -/
def standard : Chain := Rule.all

/-- The rules that the candidate breaks. -/
def violations (chain : Chain) (item candidate : OrderItem) :
    Except ArithmeticError (List Violation) := do
  return (← chain.mapM (·.check item candidate)).filterMap id

/-- Whether the candidate breaks no rule.  All rules are computed even so. -/
def accepts (chain : Chain) (item candidate : OrderItem) : Except ArithmeticError Bool := do
  return (← chain.violations item candidate).isEmpty

/-- The better of the orders found so far and that of one more rule: a later
    rule has to be more selective. -/
def preferred (item : OrderItem) (best : Option (Nat × SortKey)) (rule : Rule) :
    Option (Nat × SortKey) :=
  match rule.sortKey? item, best with
  | none, _ => best
  | some key, none => some (rule.selectivity, key)
  | some key, some (score, _) =>
    if rule.selectivity ≤ score then best else some (rule.selectivity, key)

/-- The order in which candidates are gone through. -/
def sortKey (chain : Chain) (item : OrderItem) : SortKey :=
  ((chain.foldl (preferred item) none).map (·.2)).getD .byId

/-- The query for the item's candidates. -/
def query (chain : Chain) (item : OrderItem) : Query :=
  ⟨chain.flatMap (·.filters item), chain.sortKey item, none, none⟩

end Chain
end Matchbook
