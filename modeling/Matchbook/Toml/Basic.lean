/-
  TOML documents, and how they grow line by line.

  * `Toml` is a value.  A table remembers how it came about (`Toml.Origin`), as
    that decides what may still be added to it;
  * `descend` goes down a path of keys from a table, making tables on the way, and
    lets a function change the members at its end;
  * `assign`, `define` and `append` are the three kinds of lines: a key with its
    value, the header of a table, and the header of an item of a list of tables.
    They refuse to define anything twice.
-/
namespace Matchbook

/-- How a table of a document came about. -/
inductive Toml.Origin where
  /-- By a header of its own. -/
  | defined
  /-- On the way to the table of a header. -/
  | implied
  /-- On the way to the value of a dotted key. -/
  | dotted
  /-- As a value between braces, which is complete. -/
  | inline
  deriving DecidableEq, Repr

/-- A value of a document. -/
inductive Toml where
  | string (s : String)
  | integer (n : Int)
  /-- A floating-point number, as it is written. -/
  | float (text : String)
  | boolean (b : Bool)
  /-- A date, a time or both, as they are written. -/
  | moment (text : String)
  | array (items : List Toml)
  | table (origin : Toml.Origin) (members : List (String × Toml))
  /-- Tables that were appended by headers, the last one first. -/
  | tables (items : List (List (String × Toml)))
  deriving Inhabited, Repr

namespace Toml

/-- The members of a table. -/
abbrev Members := List (String × Toml)

/-- The member of this name. -/
def Members.get? (members : Members) (key : String) : Option Toml := members.lookup key

/-- Adds a member, or replaces the one of its name. -/
def Members.put (key : String) (value : Toml) : Members → Members
  | [] => [(key, value)]
  | (k, v) :: members =>
    if key = k then (k, value) :: members else (k, v) :: Members.put key value members

theorem Members.get?_cons (k key : String) (v : Toml) (members : Members) :
    Members.get? ((k, v) :: members) key = if key = k then some v else members.get? key := by
  by_cases h : key = k
  · simp [Members.get?, h]
  · simp [Members.get?, List.lookup_cons, beq_false_of_ne h, h]

/-- `put` sets the member of its key and leaves the others as they are. -/
theorem Members.get?_put (key k : String) (value : Toml) (members : Members) :
    (members.put key value).get? k = if k = key then some value else members.get? k := by
  induction members with
  | nil => rw [Members.put, Members.get?_cons]
  | cons m members ih =>
    obtain ⟨n, v⟩ := m
    rw [Members.put]
    split
    · rename_i h
      subst h
      simp only [Members.get?_cons]
      grind
    · simp only [Members.get?_cons, ih]
      grind

/-- Goes down a path of keys and changes the members at its end; `f` also gets
    the origin of the table there.  Missing tables are made, of the origin
    `making`.  Dotted keys do not lead into tables that have a header, and a list
    of tables is entered at its last one. -/
def descend (making : Origin) (f : Origin → Members → Option Members) :
    (path : List String) → (here : Origin) → Members → Option Members
  | [], here, members => f here members
  | key :: path, _, members =>
    match members.get? key with
    | none =>
      (descend making f path making []).map fun inner => members.put key (table making inner)
    | some (table .inline _) => none
    | some (table origin inner) =>
      if making = .dotted ∧ origin = .defined then none
      else
        (descend making f path origin inner).map fun inner =>
          members.put key (table origin inner)
    | some (tables (last :: earlier)) =>
      (descend making f path .defined last).map fun last =>
        members.put key (tables (last :: earlier))
    | some _ => none

/-! ## Lines -/

/-- A line `path.key = value` of a table.  The key is new, and a path that is not
    empty leads to a table that was made by dotted keys alone. -/
def assign (path : List String) (key : String) (value : Toml) (here : Origin) (members : Members) :
    Option Members :=
  descend .dotted (fun origin members =>
    if (origin == .dotted) == path.isEmpty then none
    else if (members.get? key).isSome then none
    else some (members.put key value)) path here members

/-- The header `[path.key]`: the table is new, or was only implied so far. -/
def define (path : List String) (key : String) (members : Members) : Option Members :=
  descend .implied (fun _ members =>
    match members.get? key with
    | none => some (members.put key (table .defined []))
    | some (table .implied inner) => some (members.put key (table .defined inner))
    | some _ => none) path .defined members

/-- The header `[[path.key]]`: one more table of a new list or of one that was
    made by such headers. -/
def append (path : List String) (key : String) (members : Members) : Option Members :=
  descend .implied (fun _ members =>
    match members.get? key with
    | none => some (members.put key (tables [[]]))
    | some (tables items) => some (members.put key (tables ([] :: items)))
    | some _ => none) path .defined members

/-- A line `path.key = value` below the header `[header]`. -/
def assignBelow (header path : List String) (key : String) (value : Toml) (members : Members) :
    Option Members :=
  descend .implied (assign path key value) header .defined members

end Toml
end Matchbook
