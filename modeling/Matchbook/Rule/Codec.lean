/-
  Rules and their violations as JSON.
-/
import Matchbook.Json.Basic
import Matchbook.Rule.Basic

namespace Matchbook

namespace Rule

/-- A rule by its name. -/
def toJson (r : Rule) : Json := .string r.name

/-- Reads the name of a rule. -/
def ofJson? (j : Json) : Option Rule := j.text?.bind ofName?

end Rule

/-- A violation: the rule and what is wrong. -/
def Violation.toJson (v : Violation) : Json := .object [
  ("constraint", v.rule.toJson), ("detail", .string v.detail)]

end Matchbook
