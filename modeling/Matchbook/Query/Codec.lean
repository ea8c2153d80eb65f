/-
  Queries as JSON: a filter is `[kind, field, value]`, an order the names of its
  fields, a place the values there.
-/
import Matchbook.Json.Basic
import Matchbook.Query.Basic

namespace Matchbook

namespace Value

/-- A value. -/
def toJson : Value → Json
  | null => .null
  | bool b => .bool b
  | int n => .ofNat n.toNat
  | str s => .string s

/-- Reads a value: null, a truth value, a whole number of 64 bits or a string. -/
def ofJson? : Json → Option Value
  | .null => some null
  | .bool b => some (bool b)
  | .string s => some (str s)
  | j => j.uint64?.map int

end Value

namespace Field

/-- A field by its name. -/
def toJson (f : Field) : Json := .string f.name

/-- Reads the name of a field. -/
def ofJson? (j : Json) : Option Field := j.text?.bind ofName?

end Field

namespace Comparison

/-- The name of a comparison. -/
def name : Comparison → String
  | lt => "lt"
  | le => "le"
  | gt => "gt"
  | ge => "ge"

/-- The comparison of this name. -/
def ofName? (s : String) : Option Comparison := [lt, le, gt, ge].find? (·.name == s)

end Comparison

namespace Filter

/-- A filter: its kind, its field and what the field is compared with. -/
def toJson : Filter → Json
  | equal f v => .array [.string "eq", f.toJson, v.toJson]
  | oneOf f vs => .array [.string "in", f.toJson, .ofList Value.toJson vs]
  | range f c v => .array [.string c.name, f.toJson, v.toJson]

/-- Reads a filter. -/
def ofJson? : Json → Option Filter
  | .array [.string kind, field, value] => do
    let f ← Field.ofJson? field
    if kind = "eq" then return equal f (← Value.ofJson? value)
    else if kind = "in" then return oneOf f (← Json.listOf? Value.ofJson? value)
    else return range f (← Comparison.ofName? kind) (← Value.ofJson? value)
  | _ => none

end Filter

namespace SortKey

/-- The fields that decide the order. -/
def toJson (key : SortKey) : Json := .ofList Field.toJson key.fields

end SortKey

namespace Query

/-- A query, with the fields that carry a comparison. -/
def toJson (q : Query) : Json := .object [
  ("filters", .ofList Filter.toJson q.filters),
  ("orderBy", q.sortKey.toJson),
  ("startAfter", .ofOption (.ofList Value.toJson) q.startAfter),
  ("limit", .ofOption .ofNat q.limit),
  ("inequalityFields", .ofList Field.toJson q.comparedFields)]

/-- Reads a query; every part may be missing. -/
def ofJson? (j : Json) : Option Query := do
  let part {α : Type} (name : String) (f : Json → Option α) : Option (Option α) :=
    match j.field? name with
    | none => some none
    | some j => j.optional? f
  let filters ← part "filters" (Json.listOf? Filter.ofJson?)
  let orderBy ← part "orderBy" (Json.listOf? Field.ofJson?)
  let startAfter ← part "startAfter" (Json.listOf? Value.ofJson?)
  let limit ← part "limit" Json.natural?
  return {
    filters := filters.getD []
    sortKey := (orderBy.map SortKey.ofFields).getD .byId
    startAfter
    limit }

end Query
end Matchbook
