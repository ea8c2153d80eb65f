/-
  What a search runs in: a store that can be read, and a log.

  * `Environment m` are the reads and the log, with effects in `m`; a read may
    fail.  `extent` bounds the number of items that there are to be found, so
    that going through pages ends;
  * `Store.environment` reads a store in memory and has no log to keep, and
    `Store.recording` keeps a `Journal` of the reads and events, and can be told
    to let some reads fail (`Faults`).
-/
import Matchbook.Search.Event
import Matchbook.Store.Basic

namespace Matchbook

/-- A store that can be read and a log that can be written. -/
structure Environment (m : Type → Type) where
  /-- The order of an id. -/
  order : String → m (Except StoreError (Option Order))
  /-- The items that name an order, by id. -/
  items : String → m (Except StoreError (List OrderItem))
  /-- The page of a query. -/
  query : Query → m (Except StoreError (List OrderItem))
  /-- Writes to the log. -/
  log : Event → m Unit
  /-- There are no more items than this. -/
  extent : Nat

/-- A store in memory that no one else writes to, without a log. -/
def Store.environment (s : Store) : Environment Id where
  order id := .ok (s.order? id)
  items id := .ok (s.itemsOf id)
  query q := s.find q
  log _ := ()
  extent := s.items.size

/-! ## Keeping a journal -/

/-- A read of a store. -/
inductive Read where
  | order (id : String)
  | items (id : String)
  | query (startAfter : Option Cursor) (limit : Option Nat)
  deriving DecidableEq, Repr

/-- The kinds of reads. -/
inductive ReadKind where
  | order
  | items
  | query
  deriving DecidableEq, Repr

/-- The kind of a read. -/
def Read.kind : Read → ReadKind
  | order _ => .order
  | items _ => .items
  | query _ _ => .query

/-- The reads that were made and the events that were logged, in order. -/
structure Journal where
  reads : List Read
  events : List Event

/-- The journal without entries. -/
def Journal.empty : Journal := ⟨[], []⟩

/-- How the read of a kind fails that has this number, counted from zero. -/
abbrev Faults := ReadKind → Nat → Option StoreError

/-- No read fails. -/
def Faults.none : Faults := fun _ _ => .none

/-- Enters a read into the journal and makes it, unless it is to fail. -/
def recordRead {α : Type} (faults : Faults) (read : Read)
    (answer : StateM Journal (Except StoreError α)) : StateM Journal (Except StoreError α) := do
  let journal ← get
  let number := journal.reads.countP (·.kind == read.kind)
  set { journal with reads := journal.reads ++ [read] }
  match faults read.kind number with
  | some e => return .error e
  | none => answer

/-- Enters an event into the journal. -/
def recordEvent (e : Event) : StateM Journal Unit :=
  modify fun journal => { journal with events := journal.events ++ [e] }

/-- A store in memory whose reads and events are kept in a journal. -/
def Store.recording (s : Store) (faults : Faults) : Environment (StateM Journal) where
  order id := recordRead faults (.order id) (pure (.ok (s.order? id)))
  items id := recordRead faults (.items id) (pure (.ok (s.itemsOf id)))
  query q := recordRead faults (.query q.startAfter q.limit) do
    match s.find q with
    | .ok page =>
      recordEvent (.queryAnswered page.length)
      return .ok page
    | .error e => return .error e
  log := recordEvent
  extent := s.items.size

end Matchbook
