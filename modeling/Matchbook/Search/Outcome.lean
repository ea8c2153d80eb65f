/-
  What the searches on a graph have in common: their outcome, how they are
  interrupted, and how deals are ranked for one side.

  * `Outcome` is the records found and the events on the way;
  * `Interruption` is a failed computation or a refused operation on the graph;
    `Search.orReport` turns the second into an empty outcome with an event;
  * `Side.rank` puts the better of two deals first: a listing wants the higher
    price and an offer the lower one, then the earlier time.
-/
import Matchbook.Flow.OrderItems
import Matchbook.Record.Basic
import Matchbook.Search.Event

namespace Matchbook

/-- The records that were found, and what was reported. -/
structure Outcome where
  records : List MatchRecord
  events : List Event
  deriving DecidableEq

/-- No records, and one event that says why. -/
def Outcome.nothing (event : Event) : Outcome := ⟨[], [event]⟩

/-- Why a search stops. -/
inductive Interruption where
  | arithmetic (error : ArithmeticError)
  | graph (failure : Flow.Failure)
  deriving DecidableEq

namespace Search

/-- A computation on decimals, as a part of a search. -/
def compute {α : Type} (x : Except ArithmeticError α) : Except Interruption α :=
  x.mapError .arithmetic

/-- The answer of an operation on a graph and what it leaves behind, as a part of
    a search. -/
def operate {α σ : Type} (x : Except Flow.Failure α × σ) : Except Interruption (α × σ) :=
  match x with
  | (.ok a, s) => .ok (a, s)
  | (.error e, _) => .error (.graph e)

/-- An outcome; a refused operation finds nothing and is reported. -/
def orReport (event : Flow.Failure → Event) (x : Except Interruption Outcome) :
    Except ArithmeticError Outcome :=
  match x with
  | .ok outcome => .ok outcome
  | .error (.graph failure) => .ok (.nothing (event failure))
  | .error (.arithmetic e) => .error e

end Search

/-- The order of prices for one side: the better price first. -/
def Side.comparePrices (side : Side) (a b : Decimal) : Ordering :=
  match side with
  | .sell => Decimal.compare b a
  | .buy => Decimal.compare a b

/-- The order of deals for one side: the better price first, then the earlier. -/
def Side.rank (side : Side) (a b : Crossing) : Ordering :=
  (side.comparePrices a.price b.price).then (compare a.timestamp b.timestamp)

end Matchbook
