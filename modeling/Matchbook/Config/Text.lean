/-
  Settings as TOML text.  Any setting may be missing and has its default then;
  other keys are ignored.
-/
import Matchbook.Config.Basic
import Matchbook.Toml.Document

namespace Matchbook

namespace Toml

/-- A whole number that is not negative. -/
def natural? : Toml → Option Nat
  | integer n => if 0 ≤ n then some n.toNat else none
  | _ => none

/-- A truth value. -/
def flag? : Toml → Option Bool
  | boolean b => some b
  | _ => none

/-- A member decoded by `f`, or the default if there is none. -/
def Members.getOr? {α : Type} (members : Members) (key : String) (f : Toml → Option α)
    (default : α) : Option α :=
  match members.get? key with
  | none => some default
  | some value => f value

end Toml

namespace Config

/-- The settings in the members of a document. -/
def ofMembers? (members : Toml.Members) : Option Config := do
  return {
    pageSize := ← members.getOr? "page_size" Toml.natural? Config.default.pageSize
    maxCandidateOrders := ← members.getOr? "max_candidate_orders" (·.natural?.map some)
      Config.default.maxCandidateOrders
    oneToOne := ← members.getOr? "one_to_one" Toml.flag? Config.default.oneToOne
    oneToMany := ← members.getOr? "one_to_many" Toml.flag? Config.default.oneToMany }

/-- Reads settings and checks them. -/
def ofText (text : String) : Except ConfigError Config :=
  match (Toml.ofText? text).bind ofMembers? with
  | none => .error .malformed
  | some config => config.check

end Config
end Matchbook
