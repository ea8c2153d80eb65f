/-
  Collections of nodes: lists in the order of joining, with a cap on the flow
  that is streamed through them.

  * `Collection` holds the ends of a list that is threaded through the nodes,
    so that a member can leave without the others being looked at;
  * `members` are its nodes in order, `flow` the units that pass through them;
  * `add` appends a node, `remove` takes one out and removes its edges;
  * `outgoing` and `incoming` are the edges that leave and enter members.
-/
import Matchbook.Flow.Graph

namespace Matchbook.Flow

/-- A list of nodes with a cap on their flow. -/
structure Collection (β : Type) where
  data : β
  id : CollectionId
  /-- The most units that streaming brings through the members. -/
  maxFlow : Nat
  head : Option NodeKey
  tail : Option NodeKey
  size : Nat
  /-- The member at which the next step of a stream begins; the first if none. -/
  cursor : Option NodeKey
  deriving DecidableEq

/-- Makes an empty collection; its key is the graph's next one. -/
def Graph.newCollection {α β : Type} (g : Graph α) (data : β) (maxFlow : Nat) :
    Collection β × Graph α :=
  (⟨data, g.nextCollection, maxFlow, none, none, 0, none⟩,
    { g with nextCollection := g.nextCollection + 1 })

/-- The nodes from `start` on, following the links; `fuel` bounds their number. -/
def Graph.walk {α : Type} (g : Graph α) : (fuel : Nat) → (start : Option NodeKey) → List NodeKey
  | 0, _ => []
  | _ + 1, none => []
  | fuel + 1, some k => k :: walk g fuel ((g.node? k).bind Node.next)

namespace Collection

variable {α β : Type}

/-! ## Members -/

/-- The members, in the order in which they joined.  No list is longer than the
    nodes are many. -/
def members (c : Collection β) (g : Graph α) : List NodeKey := g.walk g.nodes.length c.head

/-- Whether a node is a member. -/
def contains (c : Collection β) (g : Graph α) (k : NodeKey) : Bool :=
  match g.node? k with
  | some n => n.collection == some c.id
  | none => false

/-- Whether there are no members. -/
def isEmpty (c : Collection β) : Bool := c.size == 0

/-- The units that pass through the members. -/
def flow (c : Collection β) (g : Graph α) : Nat :=
  let flows := (c.members g).map fun k => match g.node? k with | some n => n.flow | none => 0
  flows.foldr (· + ·) 0

/-- The edges of the members that satisfy a condition, member by member. -/
def memberEdges (c : Collection β) (g : Graph α) (keep : NodeKey → Edge → Bool) : List EdgeKey :=
  (c.members g).flatMap fun m => (g.edgesOf m).filter fun k =>
    match g.edge? k with
    | some e => keep m e
    | none => false

/-- The edges that leave members. -/
def outgoing (c : Collection β) (g : Graph α) : List EdgeKey :=
  c.memberEdges g fun m e => m == e.source

/-- The edges that enter members. -/
def incoming (c : Collection β) (g : Graph α) : List EdgeKey :=
  c.memberEdges g fun m e => m == e.sink

/-! ## Joining and leaving -/

/-- Appends a node that belongs to no collection yet. -/
def add (c : Collection β) (g : Graph α) (k : NodeKey) :
    Except Failure Unit × Collection β × Graph α :=
  match g.node? k with
  | none => (.error (.unknownNode k), c, g)
  | some n =>
    match n.collection with
    | some other => (.error (.alreadyMember k other), c, g)
    | none =>
      let g := g.modifyNode k fun n =>
        { n with collection := some c.id, previous := c.tail, next := none }
      match c.tail with
      | none => (.ok (), { c with head := some k, tail := some k, size := c.size + 1 }, g)
      | some t =>
        match g.node? t with
        | none => (.error (.unknownNode t), c, g)
        | some _ =>
          (.ok (), { c with tail := some k, size := c.size + 1 },
            g.modifyNode t fun n => { n with next := some k })

/-- Lets the node before a leaving one, or the head, skip it. -/
def skipForward (c : Collection β) (g : Graph α) (previous next : Option NodeKey) :
    Except Failure Unit × Collection β × Graph α :=
  match previous with
  | none => (.ok (), { c with head := next }, g)
  | some p =>
    match g.node? p with
    | none => (.error (.unknownNode p), c, g)
    | some _ => (.ok (), c, g.modifyNode p fun n => { n with next })

/-- Lets the node behind a leaving one, or the tail, skip it. -/
def skipBackward (c : Collection β) (g : Graph α) (previous next : Option NodeKey) :
    Except Failure Unit × Collection β × Graph α :=
  match next with
  | none => (.ok (), { c with tail := previous }, g)
  | some n =>
    match g.node? n with
    | none => (.error (.unknownNode n), c, g)
    | some _ => (.ok (), c, g.modifyNode n fun n => { n with previous })

/-- Takes a member out and removes its edges; gives the units that they carried.
    A cursor on the member moves to the next one. -/
def remove (c : Collection β) (g : Graph α) (k : NodeKey) :
    Except Failure Nat × Collection β × Graph α :=
  match g.node? k with
  | none => (.error (.unknownNode k), c, g)
  | some n =>
    if n.collection ≠ some c.id then (.error (.notMember k c.id), c, g)
    else
      match skipForward c g n.previous n.next with
      | (.error e, c, g) => (.error e, c, g)
      | (.ok _, c, g) =>
        match skipBackward c g n.previous n.next with
        | (.error e, c, g) => (.error e, c, g)
        | (.ok _, c, g) =>
          let c := if c.cursor = some k then { c with cursor := n.next } else c
          let g := g.modifyNode k fun n =>
            { n with collection := none, previous := none, next := none }
          let (released, g) := g.unlink k
          (released, { c with size := c.size - 1 }, g)

end Collection
end Matchbook.Flow
