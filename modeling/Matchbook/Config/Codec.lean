/-
  Settings as JSON documents.  Any setting may be missing and has its default
  then; only the limit of candidate orders may be `null`.
-/
import Matchbook.Config.Basic
import Matchbook.Order.Codec

namespace Matchbook.Config

/-- Settings as a document. -/
def toJson (c : Config) : Json := .object [
  ("page_size", .ofNat c.pageSize),
  ("max_candidate_orders", .ofOption .ofNat c.maxCandidateOrders),
  ("one_to_one", .bool c.oneToOne),
  ("one_to_many", .bool c.oneToMany)]

/-- Reads settings. -/
def ofJson? (j : Json) : Option Config := do
  let fields ← Fields.ofJson? 4 j
  let part {α : Type} (position : Nat) (name : String) (f : Json → Option α) (default : α) :
      Option α :=
    match fields.get? position name with
    | none => some default
    | some j => f j
  return {
    pageSize := ← part 0 "page_size" Json.natural? Config.default.pageSize
    maxCandidateOrders :=
      ← part 1 "max_candidate_orders" (Json.optional? Json.natural?)
        Config.default.maxCandidateOrders
    oneToOne := ← part 2 "one_to_one" Json.flag? Config.default.oneToOne
    oneToMany := ← part 3 "one_to_many" Json.flag? Config.default.oneToMany }

end Matchbook.Config
