/-
  The settings of a search.

  * `Config` holds them, with defaults for all;
  * `Config.check` refuses settings that make no sense (`ConfigError`).
-/
namespace Matchbook

/-- The settings of a search. -/
structure Config where
  /-- The number of items that are read at once. -/
  pageSize : Nat := 100
  /-- The most candidate orders that are looked at, if there is a limit. -/
  maxCandidateOrders : Option Nat := none
  /-- Whether orders for one token are paired. -/
  oneToOne : Bool := true
  /-- Whether orders for several tokens are filled. -/
  oneToMany : Bool := true
  deriving DecidableEq, Repr

/-- The settings that are used unless others are given. -/
def Config.default : Config where

instance : Inhabited Config := ⟨.default⟩

/-- Why settings are refused. -/
inductive ConfigError where
  /-- The file cannot be read. -/
  | unreadable
  /-- The text is not a document of settings. -/
  | malformed
  /-- A setting has a value that makes no sense. -/
  | invalidValue (field reason : String)
  deriving DecidableEq, Repr

/-- The wording of a refusal that has one. -/
def ConfigError.message? : ConfigError → Option String
  | invalidValue field reason => some ("Invalid value for field '" ++ field ++ "': " ++ reason)
  | _ => none

/-- Refuses pages without items, and a limit of no orders. -/
def Config.check (c : Config) : Except ConfigError Config :=
  if c.pageSize = 0 then .error (.invalidValue "page_size" "must be greater than 0")
  else if c.maxCandidateOrders = some 0 then
    .error (.invalidValue "max_candidate_orders" "must be greater than 0 when set")
  else .ok c

end Matchbook
