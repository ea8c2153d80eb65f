/-
  Streaming flow through a collection.  Each step pushes one unit along the
  first edge that takes it of the next member that has one, going round the
  members from the cursor on.  A stream ends when the collection carries its cap
  or no member has such an edge.

  * `Collection.next` is one step (`FlowStep`);
  * `Collection.stream` takes a number of steps, as far as there are any;
  * `Collection.saturate` streams to the end: a step fills an edge, so there are
    no more steps than edges.
-/
import Matchbook.Flow.Collection

namespace Matchbook.Flow

/-- What one step did. -/
structure FlowStep where
  /-- The edge that took the unit. -/
  edge : EdgeKey
  /-- The units that it took. -/
  pushed : Nat
  /-- The units that the collection carries behind the step. -/
  total : Nat
  deriving DecidableEq, Repr

namespace Collection

variable {α β : Type}

/-- The first edge of a node that takes one more unit. -/
def pushableEdge (g : Graph α) (k : NodeKey) : Option EdgeKey :=
  (g.edgesOf k).find? g.canPush

/-- The member behind `k`, going round. -/
def following (g : Graph α) (head k : NodeKey) : NodeKey :=
  ((g.node? k).bind Node.next).getD head

/-- The edge of a node that takes one more unit, if the node does. -/
def openEdge (g : Graph α) (k : NodeKey) : Option EdgeKey :=
  if g.hasRoom k then pushableEdge g k else none

/-- Goes round the members from `current` until one has an open edge or `start`
    is reached again; gives the edge and the member behind. -/
def seek (g : Graph α) (head start : NodeKey) :
    (fuel : Nat) → (current : NodeKey) → Option (EdgeKey × NodeKey)
  | 0, _ => none
  | fuel + 1, current =>
    let behind := following g head current
    match openEdge g current with
    | some edge => some (edge, behind)
    | none => if behind = start then none else seek g head start fuel behind

/-- The member at which a step begins: the cursor, or the first member if the
    cursor is not on a member. -/
def startOf (c : Collection β) (g : Graph α) (head : NodeKey) : NodeKey :=
  match c.cursor with
  | some k => if c.contains g k then k else head
  | none => head

/-- One step of the stream. -/
def next (c : Collection β) (g : Graph α) : Option FlowStep × Collection β × Graph α :=
  let total := c.flow g
  if c.maxFlow ≤ total then (none, c, g)
  else
    match c.head with
    | none => (none, c, g)
    | some head =>
      let start := c.startOf g head
      match seek g head start g.nodes.length start with
      | none => (none, c, g)
      | some (edge, behind) =>
        match g.pushUnit edge with
        | (.error _, g) => (none, c, g)
        | (.ok _, g) => (some ⟨edge, 1, total + 1⟩, { c with cursor := some behind }, g)

/-- At most `n` steps of the stream. -/
def stream : (n : Nat) → Collection β → Graph α → List FlowStep × Collection β × Graph α
  | 0, c, g => ([], c, g)
  | n + 1, c, g =>
    match c.next g with
    | (none, c, g) => ([], c, g)
    | (some step, c, g) =>
      let (steps, c, g) := stream n c g
      (step :: steps, c, g)

/-- All steps of the stream; gives the units that the collection carries then. -/
def saturate (c : Collection β) (g : Graph α) : Nat × Collection β × Graph α :=
  let (_, c, g) := stream (g.edges.size + 1) c g
  (c.flow g, c, g)

end Collection
end Matchbook.Flow
