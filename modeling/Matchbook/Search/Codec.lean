/-
  The results of searches as JSON documents.
-/
import Matchbook.Record.Codec
import Matchbook.Search.Run

namespace Matchbook

/-- The records that were found, and the orders that were put aside. -/
def SearchResult.toJson (r : SearchResult) : Json := .object [
  ("matches", .ofList MatchRecord.toJson r.records),
  ("requiresScan", .ofList Order.toJson r.requiresScan)]

end Matchbook
