/-
  Graphs of unit flow.  Nodes are sources or sinks with a capacity; an edge
  joins a source to a sink and carries one unit or none.

  * `Graph` holds the nodes, which are never removed, and the edges; every node
    lists its edges in the order in which they were linked and counts the units
    that pass through it;
  * `link`, `unlink` and `pushUnit` change a graph.  An operation gives its
    answer together with the graph it leaves behind, also when it fails
    (`Failure`);
  * `canPush` says that one more unit fits along an edge;
  * a node may belong to a collection, a list threaded through `next` and
    `previous` (`Flow.Collection`).
-/
import Matchbook.Flow.Arena

namespace Matchbook.Flow

/-! ## Keys and failures -/

/-- The key of a node. -/
abbrev NodeKey := Nat

/-- The key of an edge. -/
abbrev EdgeKey := Nat

/-- The key of a collection. -/
abbrev CollectionId := Nat

/-- Why an operation on a graph is refused. -/
inductive Failure where
  | unknownNode (node : NodeKey)
  | unknownEdge (edge : EdgeKey)
  /-- Both nodes are sources or both are sinks. -/
  | sameRole (a b : NodeKey)
  | alreadyLinked (source sink : NodeKey)
  | alreadyMember (node : NodeKey) (collection : CollectionId)
  | notMember (node : NodeKey) (collection : CollectionId)
  /-- The edge is in use, or one of its nodes has no capacity left. -/
  | saturated (edge : EdgeKey)
  deriving DecidableEq, Repr

/-- A node key in a message. -/
def nodeTitle (n : NodeKey) : String := "NodeKey(" ++ toString n ++ ")"

/-- An edge key in a message. -/
def edgeTitle (e : EdgeKey) : String := "EdgeKey(" ++ toString e ++ ")"

/-- The key of a collection in a message. -/
def collectionTitle (c : CollectionId) : String := "CollectionId(" ++ toString c ++ ")"

/-- A node key as a label. -/
def nodeLabel (n : NodeKey) : String := "node#" ++ toString n

/-- An edge key as a label. -/
def edgeLabel (e : EdgeKey) : String := "edge#" ++ toString e

/-- The key of a collection as a label. -/
def collectionLabel (c : CollectionId) : String := "collection#" ++ toString c

namespace Failure

/-- The name of the kind of failure. -/
def name : Failure → String
  | unknownNode _ => "UnknownNode"
  | unknownEdge _ => "UnknownEdge"
  | sameRole _ _ => "SameRole"
  | alreadyLinked _ _ => "AlreadyLinked"
  | alreadyMember _ _ => "AlreadyMember"
  | notMember _ _ => "NotMember"
  | saturated _ => "Saturated"

/-- The wording of a failure. -/
def message : Failure → String
  | unknownNode n => "Unknown node " ++ nodeTitle n
  | unknownEdge e => "Unknown edge " ++ edgeTitle e
  | sameRole a b =>
    "Cannot link " ++ nodeTitle a ++ " and " ++ nodeTitle b ++ ": both nodes have the same role"
  | alreadyLinked a b => "Nodes " ++ nodeTitle a ++ " and " ++ nodeTitle b ++ " are already linked"
  | alreadyMember n c =>
    "Node " ++ nodeTitle n ++ " already belongs to collection " ++ collectionTitle c
  | notMember n c =>
    "Node " ++ nodeTitle n ++ " is not a member of collection " ++ collectionTitle c
  | saturated e => "Edge " ++ edgeTitle e ++ " has no remaining capacity"

end Failure

/-! ## Nodes and edges -/

/-- A node of the graph. -/
structure Node (α : Type) where
  data : α
  /-- The most units that may pass through. -/
  capacity : Nat
  isSink : Bool
  /-- The units that pass through. -/
  flow : Nat
  /-- The edges, in the order in which they were linked. -/
  edges : List EdgeKey
  /-- The collection that the node belongs to. -/
  collection : Option CollectionId
  /-- The next member of the collection. -/
  next : Option NodeKey
  /-- The previous member of the collection. -/
  previous : Option NodeKey
  deriving DecidableEq

/-- A node without edges that belongs to no collection. -/
def Node.new {α : Type} (data : α) (capacity : Nat) (isSink : Bool) : Node α :=
  ⟨data, capacity, isSink, 0, [], none, none, none⟩

/-- Whether one more unit may pass through the node. -/
def Node.hasCapacity {α : Type} (n : Node α) : Bool := decide (n.flow < n.capacity)

/-- An edge from a source to a sink. -/
structure Edge where
  source : NodeKey
  sink : NodeKey
  /-- The units that it carries. -/
  flow : Nat
  deriving DecidableEq, Repr

/-- Whether the edge carries its unit. -/
def Edge.isSaturated (e : Edge) : Bool := decide (1 ≤ e.flow)

/-- The end of the edge that is not this node, if the node is one of its ends. -/
def Edge.other (e : Edge) (node : NodeKey) : Option NodeKey :=
  if node = e.source then some e.sink
  else if node = e.sink then some e.source
  else none

/-- A graph of unit flow over nodes with data. -/
structure Graph (α : Type) where
  nodes : List (Node α)
  edges : Arena Edge
  /-- The key of the next collection. -/
  nextCollection : CollectionId

namespace Graph

variable {α : Type}

/-- The graph without nodes. -/
def empty : Graph α := ⟨[], .empty, 0⟩

/-- The node behind a key. -/
def node? (g : Graph α) (k : NodeKey) : Option (Node α) := g.nodes[k]?

/-- The edge behind a key. -/
def edge? (g : Graph α) (k : EdgeKey) : Option Edge := g.edges.get? k

/-- The edges of a node, in the order in which they were linked. -/
def edgesOf (g : Graph α) (k : NodeKey) : List EdgeKey :=
  match g.node? k with
  | some n => n.edges
  | none => []

/-- Changes the node behind a key. -/
def modifyNode (g : Graph α) (k : NodeKey) (f : Node α → Node α) : Graph α :=
  { g with nodes := g.nodes.modify k f }

/-- The key of the next node. -/
def nextNode (g : Graph α) : NodeKey := g.nodes.length

/-- Adds a node without edges behind `nextNode`. -/
def addNode (g : Graph α) (data : α) (capacity : Nat) (isSink : Bool) : Graph α :=
  { g with nodes := g.nodes ++ [Node.new data capacity isSink] }

/-! ## Linking -/

/-- Whether some edge of the source leads to the sink. -/
def isLinked (g : Graph α) (source sink : NodeKey) : Bool :=
  (g.edgesOf source).any fun k =>
    match g.edge? k with
    | some e => e.sink == sink
    | none => false

/-- Adds an edge without flow between a source and a sink. -/
def addEdge (g : Graph α) (source sink : NodeKey) : Graph α :=
  let k := g.edges.nextKey
  let attach (n : Node α) : Node α := { n with edges := n.edges ++ [k] }
  let g := { g with edges := g.edges.insert ⟨source, sink, 0⟩ }
  (g.modifyNode source attach).modifyNode sink attach

/-- Joins a source and a sink, given in either order, by a new edge. -/
def link (g : Graph α) (a b : NodeKey) : Except Failure EdgeKey × Graph α :=
  match g.node? a, g.node? b with
  | none, _ => (.error (.unknownNode a), g)
  | some _, none => (.error (.unknownNode b), g)
  | some m, some n =>
    if m.isSink = n.isSink then (.error (.sameRole a b), g)
    else
      let (source, sink) := if m.isSink then (b, a) else (a, b)
      if g.isLinked source sink then (.error (.alreadyLinked source sink), g)
      else (.ok g.edges.nextKey, g.addEdge source sink)

/-- Removes the edges of a list, one after the other, from the graph and from
    the nodes at their other ends; `released` counts their units. -/
def release (node : NodeKey) :
    List EdgeKey → (released : Nat) → Graph α → Except Failure Nat × Graph α
  | [], released, g => (.ok released, g)
  | k :: ks, released, g =>
    match g.edge? k with
    | none => (.error (.unknownEdge k), g)
    | some e =>
      let g := { g with edges := g.edges.erase k }
      match e.other node with
      | none => (.error (.unknownEdge k), g)
      | some peer =>
        match g.node? peer with
        | none => (.error (.unknownNode peer), g)
        | some _ =>
          let g := g.modifyNode peer fun n =>
            { n with edges := n.edges.filter (· != k), flow := n.flow - e.flow }
          let g := g.modifyNode node fun n => { n with flow := n.flow - e.flow }
          release node ks (released + e.flow) g

/-- Removes all edges of a node and gives the units that they carried. -/
def unlink (g : Graph α) (node : NodeKey) : Except Failure Nat × Graph α :=
  match g.node? node with
  | none => (.error (.unknownNode node), g)
  | some n => release node n.edges 0 (g.modifyNode node fun n => { n with edges := [] })

/-! ## Flow -/

/-- Whether one more unit may pass through the node behind a key. -/
def hasRoom (g : Graph α) (k : NodeKey) : Bool :=
  match g.node? k with
  | some n => n.hasCapacity
  | none => false

/-- Whether one more unit fits along an edge. -/
def canPush (g : Graph α) (k : EdgeKey) : Bool :=
  match g.edge? k with
  | some e => !e.isSaturated && g.hasRoom e.source && g.hasRoom e.sink
  | none => false

/-- Pushes one unit along an edge. -/
def pushUnit (g : Graph α) (k : EdgeKey) : Except Failure Unit × Graph α :=
  match g.edge? k with
  | none => (.error (.saturated k), g)
  | some e =>
    if g.canPush k then
      let pass (n : Node α) : Node α := { n with flow := n.flow + 1 }
      let g := { g with edges := g.edges.modify k fun e => { e with flow := e.flow + 1 } }
      (.ok (), (g.modifyNode e.source pass).modifyNode e.sink pass)
    else (.error (.saturated k), g)

/-- The edges that carry flow, in the order of their keys. -/
def flowing (g : Graph α) : List (EdgeKey × Edge) :=
  g.edges.entries.filter fun (_, e) => decide (0 < e.flow)

end Graph
end Matchbook.Flow
