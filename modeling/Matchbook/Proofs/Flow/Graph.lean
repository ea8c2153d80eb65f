/-
  What the operations of a graph do to its nodes and edges.

  * `node?_modifyNode`, `node?_addNode` and `node?_onEnds` say what becomes of a
    node, `edge?_addEdge`, `edge?_unitAlong` and `edge?_dropEdge` of an edge;
  * `Node.alone` is a node without its place in a collection, `Node.idle` one
    without edges and flow: an operation on collections keeps the first of every
    node (`SameFlow`), one on the flow the second (`SamePlaces`);
  * `Graph.carried` are the units of an edge, `Graph.dropEdge` takes a single
    edge off both of its ends.
-/
import Mathlib.Algebra.BigOperators.Group.List.Basic
import Matchbook.Flow.Stream

namespace Matchbook.Flow

variable {α β : Type}

namespace Graph

/-! ## Nodes and edges after an operation -/

@[simp] theorem node?_modifyNode (g : Graph α) (k j : NodeKey) (f : Node α → Node α) :
    (g.modifyNode k f).node? j = if j = k then (g.node? j).map f else g.node? j := by
  simp only [node?, modifyNode, List.getElem?_modify, eq_comm (a := k)]
  split <;> simp

@[simp] theorem node?_withEdges (g : Graph α) (edges : Arena Edge) (k : NodeKey) :
    ({ g with edges } : Graph α).node? k = g.node? k := rfl

theorem node?_addNode (g : Graph α) (data : α) (capacity : Nat) (isSink : Bool) (j : NodeKey) :
    (g.addNode data capacity isSink).node? j =
      if j = g.nextNode then some (Node.new data capacity isSink) else g.node? j := by
  show (g.nodes ++ [_])[j]? = if j = g.nodes.length then _ else g.nodes[j]?
  rcases Nat.lt_trichotomy j g.nodes.length with h | rfl | h
  · rw [List.getElem?_append_left h, if_neg (Nat.ne_of_lt h)]
  · simp
  · rw [List.getElem?_eq_none (by simp; omega), if_neg (Nat.ne_of_gt h),
      List.getElem?_eq_none (by omega)]

theorem node?_nextNode (g : Graph α) : g.node? g.nextNode = none := by
  simp [node?, nextNode]

theorem node?_eq_some_lt {g : Graph α} {k : NodeKey} {n : Node α} (h : g.node? k = some n) :
    k < g.nodes.length := (List.getElem?_eq_some_iff.1 h).1

theorem edgesOf_eq {g : Graph α} {k : NodeKey} {n : Node α} (h : g.node? k = some n) :
    g.edgesOf k = n.edges := by simp [edgesOf, h]

/-- Two graphs with the same nodes and edges are the same. -/
theorem ext_node? {g g' : Graph α} (hn : ∀ k, g.node? k = g'.node? k) (he : g.edges = g'.edges)
    (hc : g.nextCollection = g'.nextCollection) : g = g' := by
  obtain ⟨nodes, edges, next⟩ := g
  obtain ⟨nodes', edges', next'⟩ := g'
  obtain rfl : nodes = nodes' := List.ext_getElem? hn
  obtain rfl : edges = edges' := he
  obtain rfl : next = next' := hc
  rfl

/-- The graph with other edges and a change at the two ends of one of them. -/
def onEnds (g : Graph α) (edges : Arena Edge) (a b : NodeKey) (f : Node α → Node α) : Graph α :=
  (({ g with edges } : Graph α).modifyNode a f).modifyNode b f

theorem node?_onEnds (g : Graph α) (edges : Arena Edge) {a b : NodeKey} (hab : a ≠ b)
    (f : Node α → Node α) (j : NodeKey) :
    (g.onEnds edges a b f).node? j =
      if j = a ∨ j = b then (g.node? j).map f else g.node? j := by
  have h : (g.onEnds edges a b f).node? j =
      if j = b then (if j = a then (g.node? j).map f else g.node? j).map f
      else if j = a then (g.node? j).map f else g.node? j := by
    simp only [onEnds, node?_modifyNode]; rfl
  rw [h]
  by_cases ha : j = a
  · subst ha; simp [hab]
  · simp [ha]

/-- Appends an edge to the list of a node. -/
def attach (k : EdgeKey) (n : Node α) : Node α := { n with edges := n.edges ++ [k] }

theorem addEdge_eq (g : Graph α) (a b : NodeKey) :
    g.addEdge a b = g.onEnds (g.edges.insert ⟨a, b, 0⟩) a b (attach g.edges.nextKey) := rfl

theorem edge?_addEdge (g : Graph α) (a b : NodeKey) (k : EdgeKey) :
    (g.addEdge a b).edge? k = if k = g.edges.nextKey then some ⟨a, b, 0⟩ else g.edge? k :=
  Arena.get?_insert _ _ _

theorem edge?_nextKey (g : Graph α) : g.edge? g.edges.nextKey = none := Arena.get?_nextKey _

theorem edge?_addEdge_old {g : Graph α} {k : EdgeKey} {e : Edge} (h : g.edge? k = some e)
    (a b : NodeKey) : (g.addEdge a b).edge? k = some e := by
  rw [edge?_addEdge, if_neg, h]
  rintro rfl
  rw [edge?_nextKey] at h
  cases h

theorem edge?_addEdge_cases {g : Graph α} {a b : NodeKey} {k : EdgeKey} {e : Edge}
    (h : (g.addEdge a b).edge? k = some e) :
    k = g.edges.nextKey ∧ e = ⟨a, b, 0⟩ ∨ g.edge? k = some e := by
  rw [edge?_addEdge] at h
  split at h
  · next hk => exact Or.inl ⟨hk, (Option.some.inj h).symm⟩
  · exact Or.inr h

/-- Lets one more unit through a node. -/
def pass (n : Node α) : Node α := { n with flow := n.flow + 1 }

/-- The graph with one more unit along an edge. -/
def unitAlong (g : Graph α) (k : EdgeKey) (e : Edge) : Graph α :=
  g.onEnds (g.edges.modify k fun e => { e with flow := e.flow + 1 }) e.source e.sink pass

theorem edge?_unitAlong (g : Graph α) (k : EdgeKey) (e : Edge) (j : EdgeKey) :
    (g.unitAlong k e).edge? j =
      if j = k then (g.edge? j).map fun e => { e with flow := e.flow + 1 } else g.edge? j :=
  Arena.get?_modify _ _ _ _

theorem edge?_unitAlong_old {g : Graph α} {j : EdgeKey} {d : Edge} (h : g.edge? j = some d)
    (k : EdgeKey) (e : Edge) : ∃ d', (g.unitAlong k e).edge? j = some d' ∧ d'.source = d.source ∧
      d'.sink = d.sink := by
  rw [edge?_unitAlong, h]
  split
  · exact ⟨_, rfl, rfl, rfl⟩
  · exact ⟨_, rfl, rfl, rfl⟩

/-- An edge joins the same nodes, and carries what it did if it is another one. -/
theorem edge?_unitAlong_cases {g : Graph α} {k j : EdgeKey} {e d' : Edge}
    (h : (g.unitAlong k e).edge? j = some d') : ∃ d, g.edge? j = some d ∧ d'.source = d.source ∧
      d'.sink = d.sink ∧ (j = k ∧ d'.flow = d.flow + 1 ∨ d'.flow = d.flow) := by
  rw [edge?_unitAlong] at h
  split at h
  · next hj =>
    obtain ⟨d, hd, rfl⟩ := Option.map_eq_some_iff.1 h
    exact ⟨d, hd, rfl, rfl, Or.inl ⟨hj, rfl⟩⟩
  · exact ⟨d', h, rfl, rfl, Or.inr rfl⟩

/-- A unit is pushed exactly along an edge that takes it. -/
theorem pushUnit_eq (g : Graph α) (k : EdgeKey) :
    (∃ e, g.edge? k = some e ∧ g.canPush k = true ∧ g.pushUnit k = (.ok (), g.unitAlong k e)) ∨
      g.canPush k = false ∧ g.pushUnit k = (.error (.saturated k), g) := by
  unfold pushUnit
  cases he : g.edge? k with
  | none => exact Or.inr ⟨by simp [canPush, he], rfl⟩
  | some e =>
    cases hp : g.canPush k with
    | true => exact Or.inl ⟨e, rfl, rfl, rfl⟩
    | false => exact Or.inr ⟨rfl, rfl⟩

theorem canPush_iff {g : Graph α} {k : EdgeKey} :
    g.canPush k = true ↔ ∃ e, g.edge? k = some e ∧ e.flow < 1 ∧
      (∃ s, g.node? e.source = some s ∧ s.flow < s.capacity) ∧
      ∃ t, g.node? e.sink = some t ∧ t.flow < t.capacity := by
  have hroom : ∀ k, g.hasRoom k = true ↔ ∃ n, g.node? k = some n ∧ n.flow < n.capacity := by
    intro k
    cases h : g.node? k <;> simp [hasRoom, Node.hasCapacity, h]
  cases h : g.edge? k with
  | none => simp [canPush, h]
  | some e => simp [canPush, h, Edge.isSaturated, hroom, and_assoc]

/-! ## Taking an edge out -/

/-- Takes an edge and its units off a node. -/
def detach (k : EdgeKey) (units : Nat) (n : Node α) : Node α :=
  { n with edges := n.edges.filter (· != k), flow := n.flow - units }

/-- The graph without one of its edges. -/
def dropEdge (g : Graph α) (k : EdgeKey) : Graph α :=
  match g.edge? k with
  | none => g
  | some e => g.onEnds (g.edges.erase k) e.source e.sink (detach k e.flow)

theorem dropEdge_eq {g : Graph α} {k : EdgeKey} {e : Edge} (h : g.edge? k = some e) :
    g.dropEdge k = g.onEnds (g.edges.erase k) e.source e.sink (detach k e.flow) := by
  simp [dropEdge, h]

theorem edge?_dropEdge (g : Graph α) (k j : EdgeKey) :
    (g.dropEdge k).edge? j = if j = k then none else g.edge? j := by
  unfold dropEdge
  cases h : g.edge? k with
  | none =>
    show g.edge? j = _
    by_cases hj : j = k
    · rw [if_pos hj, hj, h]
    · rw [if_neg hj]
  | some e => exact Arena.get?_erase _ _ _

/-- The units that an edge carries. -/
def carried (g : Graph α) (k : EdgeKey) : Nat :=
  match g.edge? k with
  | some e => e.flow
  | none => 0

theorem carried_eq {g : Graph α} {k : EdgeKey} {e : Edge} (h : g.edge? k = some e) :
    g.carried k = e.flow := by simp [carried, h]

theorem carried_nextKey (g : Graph α) : g.carried g.edges.nextKey = 0 := by
  simp [carried, edge?_nextKey]

theorem carried_addEdge (g : Graph α) (a b : NodeKey) : (g.addEdge a b).carried = g.carried := by
  funext k
  by_cases hk : k = g.edges.nextKey
  · subst hk
    rw [carried_nextKey, carried_eq ((edge?_addEdge g a b _).trans (if_pos rfl))]
  · simp [carried, edge?_addEdge, hk]

theorem carried_unitAlong {g : Graph α} {k j : EdgeKey} (hj : j ≠ k) (e : Edge) :
    (g.unitAlong k e).carried j = g.carried j := by simp [carried, edge?_unitAlong, hj]

theorem carried_unitAlong_self {g : Graph α} {k : EdgeKey} {e : Edge} (h : g.edge? k = some e) :
    (g.unitAlong k e).carried k = g.carried k + 1 := by simp [carried, edge?_unitAlong, h]

theorem carried_dropEdge {g : Graph α} {k j : EdgeKey} (hj : j ≠ k) :
    (g.dropEdge k).carried j = g.carried j := by simp [carried, edge?_dropEdge, hj]

end Graph

/-! ## What an operation leaves alone -/

/-- The node outside of any collection. -/
def Node.alone (n : Node α) : Node α :=
  { n with collection := none, next := none, previous := none }

/-- The node without edges and flow. -/
def Node.idle (n : Node α) : Node α := { n with flow := 0, edges := [] }

/-- The graphs differ at most in the collections that the nodes belong to. -/
structure SameFlow (g g' : Graph α) : Prop where
  node : ∀ k, (g'.node? k).map Node.alone = (g.node? k).map Node.alone
  edges : g'.edges = g.edges

/-- The graphs differ at most in edges and flow. -/
structure SamePlaces (g g' : Graph α) : Prop where
  node : ∀ k, (g'.node? k).map Node.idle = (g.node? k).map Node.idle
  nextCollection : g'.nextCollection = g.nextCollection

namespace SameFlow

theorem refl (g : Graph α) : SameFlow g g := ⟨fun _ => rfl, rfl⟩

theorem symm {g g' : Graph α} (h : SameFlow g g') : SameFlow g' g :=
  ⟨fun k => (h.node k).symm, h.edges.symm⟩

theorem trans {g g' g'' : Graph α} (h : SameFlow g g') (h' : SameFlow g' g'') : SameFlow g g'' :=
  ⟨fun k => (h'.node k).trans (h.node k), h'.edges.trans h.edges⟩

/-- A change that a node without its place does not show. -/
theorem modifyNode (g : Graph α) (k : NodeKey) {f : Node α → Node α}
    (hf : ∀ n, (f n).alone = n.alone) : SameFlow g (g.modifyNode k f) where
  node j := by
    rw [Graph.node?_modifyNode]
    split
    · rw [Option.map_map]; congr 1; funext n; exact hf n
    · rfl
  edges := rfl

theorem exists_node {g g' : Graph α} (h : SameFlow g g') {k : NodeKey} {n : Node α}
    (hn : g'.node? k = some n) : ∃ m, g.node? k = some m ∧ n.alone = m.alone := by
  have := h.node k
  rw [hn] at this
  obtain ⟨m, hm, he⟩ := Option.map_eq_some_iff.1 this.symm
  exact ⟨m, hm, he.symm⟩

end SameFlow

namespace SamePlaces

theorem refl (g : Graph α) : SamePlaces g g := ⟨fun _ => rfl, rfl⟩

theorem trans {g g' g'' : Graph α} (h : SamePlaces g g') (h' : SamePlaces g' g'') :
    SamePlaces g g'' :=
  ⟨fun k => (h'.node k).trans (h.node k), h'.nextCollection.trans h.nextCollection⟩

/-- A change that an idle node does not show. -/
theorem modifyNode (g : Graph α) (k : NodeKey) {f : Node α → Node α}
    (hf : ∀ n, (f n).idle = n.idle) : SamePlaces g (g.modifyNode k f) where
  node j := by
    rw [Graph.node?_modifyNode]
    split
    · rw [Option.map_map]; congr 1; funext n; exact hf n
    · rfl
  nextCollection := rfl

theorem exists_node {g g' : Graph α} (h : SamePlaces g g') {k : NodeKey} {n : Node α}
    (hn : g'.node? k = some n) : ∃ m, g.node? k = some m ∧ n.idle = m.idle := by
  have := h.node k
  rw [hn] at this
  obtain ⟨m, hm, he⟩ := Option.map_eq_some_iff.1 this.symm
  exact ⟨m, hm, he.symm⟩

theorem onEnds (g : Graph α) (edges : Arena Edge) (a b : NodeKey) {f : Node α → Node α}
    (hf : ∀ n, (f n).idle = n.idle) : SamePlaces g (g.onEnds edges a b f) := by
  have h : SamePlaces g { g with edges } := ⟨fun _ => rfl, rfl⟩
  exact (h.trans (modifyNode _ a hf)).trans (modifyNode _ b hf)

theorem addEdge (g : Graph α) (a b : NodeKey) : SamePlaces g (g.addEdge a b) :=
  onEnds g _ a b fun _ => rfl

theorem unitAlong (g : Graph α) (k : EdgeKey) (e : Edge) : SamePlaces g (g.unitAlong k e) :=
  onEnds g _ _ _ fun _ => rfl

theorem dropEdge (g : Graph α) (k : EdgeKey) : SamePlaces g (g.dropEdge k) := by
  unfold Graph.dropEdge
  split
  · exact refl g
  · exact onEnds g _ _ _ fun _ => rfl

theorem foldl_dropEdge (g : Graph α) (ks : List EdgeKey) :
    SamePlaces g (ks.foldl Graph.dropEdge g) := by
  induction ks generalizing g with
  | nil => exact refl g
  | cons k ks ih => exact (dropEdge g k).trans (ih _)

end SamePlaces
end Matchbook.Flow
