/-
  The search for the matches of one order.

  The candidates of each item of the root order are looked up, their orders are
  read, and those that are complete and have an item that satisfies the chain are
  paired with the root or used to fill it.

  * `loadOrder` reads the items of an order and accepts them;
  * `candidateIds` are the orders to look at, each once and in the order of their
    first item;
  * `sift` reads them and says what becomes of each (`Sifted`);
  * `Search.run` is the search, and `Search.ofStored` finds the root in the store.

  A failed read ends the search (`SearchError`); a candidate order that is gone
  or has a defect is passed over.
-/
import Matchbook.Config.Basic
import Matchbook.Search.Filling
import Matchbook.Search.Paging

namespace Matchbook

/-- Why a search has no result. -/
inductive SearchError where
  | store (error : StoreError)
  /-- The root's items are not its items, or incomplete. -/
  | invalidOrder (orderId : String) (defect : Defect)
  | arithmetic (error : ArithmeticError)
  deriving DecidableEq

/-- The wording of a failure. -/
def SearchError.message : SearchError → String
  | store e => "Store error: " ++ e.message
  | invalidOrder orderId defect => invalidOrderMessage orderId defect
  | arithmetic e => e.message

/-- What a search found. -/
structure SearchResult where
  records : List MatchRecord
  /-- Orders for several tokens that were met while looking for the matches of an
      order for one. -/
  requiresScan : List Order
  deriving DecidableEq

/-- The matches of `root` are looked for, by these rules and settings. -/
structure Search where
  root : Order
  chain : Chain
  config : Config

namespace Search

variable {m : Type → Type} [Monad m]

/-! ## Reading orders -/

/-- The answer of a read, as a part of a search. -/
def fetch {α : Type} (read : m (Except StoreError α)) : ExceptT SearchError m α := do
  match ← ExceptT.lift read with
  | .ok a => return a
  | .error e => throw (.store e)

/-- Reads the items of an order and accepts them. -/
def loadOrder (env : Environment m) (order : Order) : ExceptT SearchError m LoadedOrder := do
  let items ← fetch (env.items order.id)
  match order.bind items with
  | .error defect => throw (.invalidOrder order.id defect)
  | .ok loaded =>
    env.log (.itemsBound order.id items.length)
    return loaded

/-- The candidates of all items. -/
def enumerate (env : Environment m) (chain : Chain) (pageSize : Nat) :
    List OrderItem → ExceptT SearchError m (List OrderItem)
  | [] => return []
  | item :: items => do
    let (found, failure) ← ExceptT.lift (possibleMatches env chain item pageSize)
    match failure with
    | some e => throw (.store e)
    | none =>
      env.log (.candidatesEnumerated item.id found.length)
      return found ++ (← enumerate env chain pageSize items)

/-! ## Candidate orders -/

/-- The orders of the items other than the root, each once. -/
def candidateIds (rootId : String) (docs : List OrderItem) : List String :=
  ((docs.map (·.orderId)).filter (· != rootId)).eraseDups

/-- The orders to look at: as many as wanted. -/
def capIds (env : Environment m) (cap : Option Nat) (ids : List String) : m (List String) :=
  match cap with
  | some n =>
    if n < ids.length then do
      env.log (.candidatesCapped ids.length n)
      return ids.take n
    else return ids
  | none => return ids

/-- The candidate orders after a look at each. -/
structure Sifted where
  /-- To be searched. -/
  candidates : List LoadedOrder
  /-- For several tokens, where the root is for one. -/
  requiresScan : List Order
  /-- How many were passed over. -/
  rejected : Nat

/-- Whether some item of the order is accepted for some item of the root. -/
def isCompatible (chain : Chain) (root candidate : LoadedOrder) : Except ArithmeticError Bool :=
  candidate.items.anyM fun i => root.items.anyM fun r => chain.accepts r i

/-- Looks at one order; `none` if it is passed over. -/
def inspect (env : Environment m) (chain : Chain) (root : LoadedOrder) (id : String) :
    ExceptT SearchError m (Option LoadedOrder) := do
  match ← fetch (env.order id) with
  | none =>
    env.log (.candidateVanished id)
    return none
  | some order =>
    match ← ExceptT.lift (loadOrder env order).run with
    | .error (.invalidOrder orderId defect) =>
      env.log (.candidateInvalid orderId defect)
      return none
    | .error e => throw e
    | .ok candidate =>
      match isCompatible chain root candidate with
      | .error e => throw (.arithmetic e)
      | .ok true => return some candidate
      | .ok false =>
        env.log (.candidateRejected id)
        return none

/-- Looks at the orders one after the other. -/
def sift (env : Environment m) (chain : Chain) (root : LoadedOrder) :
    List String → ExceptT SearchError m Sifted
  | [] => return ⟨[], [], 0⟩
  | id :: ids => do
    let found ← inspect env chain root id
    let rest ← sift env chain root ids
    match found with
    | none => return { rest with rejected := rest.rejected + 1 }
    | some candidate =>
      if root.order.numItems == 1 && decide (1 < candidate.order.numItems) then
        return { rest with requiresScan := candidate.order :: rest.requiresScan }
      else return { rest with candidates := candidate :: rest.candidates }

/-! ## The search -/

/-- Runs a search on the candidates, if it is wanted, and logs its events. -/
def runMode (env : Environment m) (wanted : Bool) (outcome : Except ArithmeticError Outcome) :
    ExceptT SearchError m (List MatchRecord) := do
  if wanted then
    match outcome with
    | .error e => throw (.arithmetic e)
    | .ok outcome =>
      for e in outcome.events do env.log e
      return outcome.records
  else return []

/-- Looks for the matches of the root.  The candidates' items are looked up
    unless they are given. -/
def run (env : Environment m) (s : Search) (possible : Option (List OrderItem)) :
    ExceptT SearchError m SearchResult := do
  let root ← loadOrder env s.root
  let docs ← match possible with
    | some docs => pure docs
    | none => enumerate env s.chain s.config.pageSize root.items
  let ids ← ExceptT.lift
    (capIds env s.config.maxCandidateOrders (candidateIds root.order.id docs))
  let sifted ← sift env s.chain root ids
  let pairs ← runMode env s.config.oneToOne (Search.pair s.chain root sifted.candidates)
  let fills ← runMode env s.config.oneToMany (Search.fill s.chain root sifted.candidates)
  let records := pairs ++ fills
  env.log (.searchCompleted docs.length sifted.candidates.length sifted.rejected records.length
    sifted.requiresScan.length)
  return ⟨records, sifted.requiresScan⟩

/-- A search by all rules, with the default settings. -/
def ofOrder (root : Order) : Search := ⟨root, Chain.standard, .default⟩

/-- A search by all rules for the stored order of this id. -/
def ofStored (env : Environment m) (orderId : String) (config : Config) :
    ExceptT SearchError m Search := do
  match ← fetch (env.order orderId) with
  | some order => return { ofOrder order with config }
  | none => throw (.store (.notFound ("order " ++ orderId)))

end Search
end Matchbook
