/-
  Sound graphs: flow is written down at an edge and at both of its ends, and
  edges in the lists of both ends, and all of these agree.

  * `Graph.Sound` says so; `Sound.addNode`, `Sound.addEdge`, `Sound.unitAlong`
    and `Sound.dropEdge` keep it, one for each way in which a graph changes;
  * `Sound.congr` says that collections do not matter to it.
-/
import Mathlib.Algebra.BigOperators.Group.List.Basic
import Mathlib.Algebra.GroupWithZero.Nat
import Matchbook.Proofs.Flow.Graph

namespace Matchbook.Flow

variable {α β : Type}

/-- Whether the node is an end of the edge. -/
def Edge.Touches (e : Edge) (a : NodeKey) : Prop := a = e.source ∨ a = e.sink

/-- Whether the two nodes are the ends of the edge, in either order. -/
def Edge.Joins (e : Edge) (a b : NodeKey) : Prop :=
  e.source = a ∧ e.sink = b ∨ e.source = b ∧ e.sink = a

/-- An edge with two ends leads from each of them to the other. -/
theorem Edge.exists_other {e : Edge} (hne : e.source ≠ e.sink) {a : NodeKey} (ha : e.Touches a) :
    ∃ b, e.other a = some b ∧ a ≠ b ∧ ∀ j, e.Touches j ↔ j = a ∨ j = b := by
  unfold Edge.other
  rcases ha with rfl | rfl
  · exact ⟨e.sink, if_pos rfl, hne, fun j => Iff.rfl⟩
  · exact ⟨e.source, by simp [hne.symm], hne.symm, fun j => or_comm⟩

namespace Graph

/-- Some edge leads from the one node to the other. -/
def Leads (g : Graph α) (a b : NodeKey) : Prop :=
  ∃ k e, g.edge? k = some e ∧ e.source = a ∧ e.sink = b

/-- Edges, lists of edges and flows of a graph agree. -/
structure Sound (g : Graph α) : Prop where
  /-- An edge leaves a source and reaches a sink. -/
  ends : ∀ {k e}, g.edge? k = some e → (∃ s, g.node? e.source = some s ∧ s.isSink = false) ∧
    ∃ t, g.node? e.sink = some t ∧ t.isSink = true
  /-- A node lists the edges that it is an end of, -/
  mem_edges : ∀ {a n}, g.node? a = some n → ∀ k, k ∈ n.edges ↔
    ∃ e, g.edge? k = some e ∧ e.Touches a
  /-- and each of them once. -/
  nodup : ∀ {a n}, g.node? a = some n → n.edges.Nodup
  /-- No two edges join the same nodes. -/
  unique : ∀ {a b k k' e e'}, g.edge? k = some e → g.edge? k' = some e' → e.Joins a b →
    e'.Joins a b → k = k'
  /-- An edge carries one unit or none. -/
  flow_le_one : ∀ {k e}, g.edge? k = some e → e.flow ≤ 1
  /-- The units through a node are those of its edges, -/
  balance : ∀ {a n}, g.node? a = some n → n.flow = (n.edges.map g.carried).sum
  /-- and no more than its capacity. -/
  flow_le_capacity : ∀ {a n}, g.node? a = some n → n.flow ≤ n.capacity

namespace Sound

variable {g g' : Graph α}

theorem empty : (Graph.empty : Graph α).Sound := by
  have hn : ∀ a, (Graph.empty : Graph α).node? a = none := fun a => by simp [Graph.empty, node?]
  have he : ∀ k, (Graph.empty : Graph α).edge? k = none := fun k => Arena.get?_empty k
  constructor <;> intros <;> simp_all

/-- An edge has two ends. -/
theorem source_ne_sink (h : g.Sound) {k : EdgeKey} {e : Edge} (he : g.edge? k = some e) :
    e.source ≠ e.sink := by
  obtain ⟨⟨s, hs, hs'⟩, t, ht, ht'⟩ := h.ends he
  intro heq
  rw [heq, ht] at hs
  cases hs
  simp [ht'] at hs'

/-- The ends of an edge are there. -/
theorem exists_node (h : g.Sound) {k : EdgeKey} {e : Edge} (he : g.edge? k = some e) {a : NodeKey}
    (ha : e.Touches a) : ∃ n, g.node? a = some n := by
  obtain ⟨⟨s, hs, -⟩, t, ht, -⟩ := h.ends he
  rcases ha with rfl | rfl
  · exact ⟨s, hs⟩
  · exact ⟨t, ht⟩

/-- Soundness is about edges and flows only. -/
theorem congr (h : g.Sound) (hs : SameFlow g g') : g'.Sound := by
  have hedge : ∀ k, g'.edge? k = g.edge? k := fun k => by simp [edge?, hs.edges]
  have hcarried : g'.carried = g.carried := by funext k; simp [carried, hedge]
  have hnode : ∀ {a n}, g'.node? a = some n → ∃ m, g.node? a = some m ∧ n.edges = m.edges ∧
      n.flow = m.flow ∧ n.capacity = m.capacity := by
    intro a n hn
    obtain ⟨m, hm, he⟩ := hs.exists_node hn
    injection he with _ hc _ hf hl
    exact ⟨m, hm, hl, hf, hc⟩
  have hback : ∀ {a m}, g.node? a = some m → ∃ n, g'.node? a = some n ∧ n.isSink = m.isSink := by
    intro a m hm
    obtain ⟨n, hn, he⟩ := hs.symm.exists_node hm
    injection he with _ _ hi
    exact ⟨n, hn, hi.symm⟩
  constructor
  case ends =>
    intro k e he
    obtain ⟨⟨s, hs, hs'⟩, t, ht, ht'⟩ := h.ends (hedge k ▸ he)
    obtain ⟨s₁, hs₁, hi⟩ := hback hs
    obtain ⟨t₁, ht₁, hj⟩ := hback ht
    exact ⟨⟨s₁, hs₁, hi.trans hs'⟩, t₁, ht₁, hj.trans ht'⟩
  case mem_edges =>
    intro a n hn k
    obtain ⟨m, hm, hl, -⟩ := hnode hn
    rw [hl, h.mem_edges hm, hedge]
  case nodup =>
    intro a n hn
    obtain ⟨m, hm, hl, -⟩ := hnode hn
    exact hl ▸ h.nodup hm
  case unique =>
    intro a b k k' e e' he he'
    exact h.unique (hedge k ▸ he) (hedge k' ▸ he')
  case flow_le_one =>
    intro k e he
    exact h.flow_le_one (hedge k ▸ he)
  case balance =>
    intro a n hn
    obtain ⟨m, hm, hl, hf, -⟩ := hnode hn
    rw [hf, hl, hcarried]
    exact h.balance hm
  case flow_le_capacity =>
    intro a n hn
    obtain ⟨m, hm, -, hf, hc⟩ := hnode hn
    rw [hf, hc]
    exact h.flow_le_capacity hm

/-- A new node has neither edges nor flow. -/
theorem addNode (h : g.Sound) (data : α) (capacity : Nat) (isSink : Bool) :
    (g.addNode data capacity isSink).Sound := by
  have hold : ∀ {a n}, g.node? a = some n → (g.addNode data capacity isSink).node? a = some n := by
    intro a n hn
    rw [node?_addNode, if_neg, hn]
    rintro rfl
    rw [node?_nextNode] at hn
    cases hn
  have hnode : ∀ {a n}, (g.addNode data capacity isSink).node? a = some n →
      g.node? a = some n ∨ a = g.nextNode ∧ n = Node.new data capacity isSink := by
    intro a n hn
    rw [node?_addNode] at hn
    split at hn
    · next ha => exact Or.inr ⟨ha, (Option.some.inj hn).symm⟩
    · exact Or.inl hn
  constructor
  case ends =>
    intro k e he
    obtain ⟨⟨s, hs, hs'⟩, t, ht, ht'⟩ := h.ends he
    exact ⟨⟨s, hold hs, hs'⟩, t, hold ht, ht'⟩
  case mem_edges =>
    intro a n hn k
    rcases hnode hn with hn | ⟨rfl, rfl⟩
    · exact h.mem_edges hn k
    · -- no edge touches a node that was not there
      simp only [Node.new, List.not_mem_nil, false_iff, not_exists, not_and]
      rintro e he (ht | ht)
      · obtain ⟨⟨s, hs, -⟩, -⟩ := h.ends he
        rw [← ht, node?_nextNode] at hs
        cases hs
      · obtain ⟨-, s, hs, -⟩ := h.ends he
        rw [← ht, node?_nextNode] at hs
        cases hs
  case nodup =>
    intro a n hn
    rcases hnode hn with hn | ⟨-, rfl⟩
    · exact h.nodup hn
    · exact List.nodup_nil
  case unique => exact h.unique
  case flow_le_one => exact h.flow_le_one
  case balance =>
    intro a n hn
    rcases hnode hn with hn | ⟨-, rfl⟩
    · exact h.balance hn
    · rfl
  case flow_le_capacity =>
    intro a n hn
    rcases hnode hn with hn | ⟨-, rfl⟩
    · exact h.flow_le_capacity hn
    · exact Nat.zero_le _

end Sound

/-- What becomes of the nodes when the two ends of an edge change. -/
theorem exists_node_onEnds {g : Graph α} {edges : Arena Edge} {a b : NodeKey} (hab : a ≠ b)
    {f : Node α → Node α} {j : NodeKey} {n : Node α}
    (hn : (g.onEnds edges a b f).node? j = some n) :
    ∃ m, g.node? j = some m ∧ ((j = a ∨ j = b) ∧ n = f m ∨ ¬ (j = a ∨ j = b) ∧ n = m) := by
  rw [node?_onEnds g edges hab] at hn
  split at hn
  · next hj =>
    obtain ⟨m, hm, rfl⟩ := Option.map_eq_some_iff.1 hn
    exact ⟨m, hm, Or.inl ⟨hj, rfl⟩⟩
  · next hj => exact ⟨n, hn, Or.inr ⟨hj, rfl⟩⟩

/-- The nodes at the ends of an edge keep their roles. -/
theorem role_onEnds {g : Graph α} {edges : Arena Edge} {a b : NodeKey} (hab : a ≠ b)
    (f : Node α → Node α) (hf : ∀ n, (f n).isSink = n.isSink) {j : NodeKey} {r : Bool}
    (h : ∃ n, g.node? j = some n ∧ n.isSink = r) :
    ∃ n, (g.onEnds edges a b f).node? j = some n ∧ n.isSink = r := by
  obtain ⟨n, hn, hr⟩ := h
  rw [node?_onEnds g edges hab, hn]
  split
  · exact ⟨f n, rfl, (hf n).trans hr⟩
  · exact ⟨n, rfl, hr⟩

namespace Sound

variable {g : Graph α}

/-- A source is linked to the sinks that its edges lead to. -/
theorem isLinked_iff (h : g.Sound) {a b : NodeKey} {s : Node α} (hs : g.node? a = some s)
    (hs' : s.isSink = false) : g.isLinked a b = true ↔ g.Leads a b := by
  rw [isLinked, List.any_eq_true, edgesOf_eq hs]
  constructor
  · rintro ⟨k, hk, hsink⟩
    obtain ⟨e, he, ht⟩ := (h.mem_edges hs k).1 hk
    simp only [he, beq_iff_eq] at hsink
    refine ⟨k, e, he, ?_, hsink⟩
    rcases ht with rfl | rfl
    · rfl
    · obtain ⟨t, ht, ht'⟩ := (h.ends he).2
      rw [hs] at ht
      cases ht
      rw [hs'] at ht'
      cases ht'
  · rintro ⟨k, e, he, rfl, rfl⟩
    refine ⟨k, (h.mem_edges hs k).2 ⟨e, he, Or.inl rfl⟩, ?_⟩
    simp [he]

/-- No edge joins a source and a sink that are not linked. -/
theorem not_joins (h : g.Sound) {a b : NodeKey} {s t : Node α} (hs : g.node? a = some s)
    (hs' : s.isSink = false) (ht : g.node? b = some t) (ht' : t.isSink = true)
    (hl : g.isLinked a b = false) {k : EdgeKey} {e : Edge} (he : g.edge? k = some e) :
    ¬ e.Joins a b := by
  rintro (⟨hsource, hsink⟩ | ⟨hsource, -⟩)
  · rw [(h.isLinked_iff hs hs').2 ⟨k, e, he, hsource, hsink⟩] at hl
    cases hl
  · obtain ⟨m, hm, hm'⟩ := (h.ends he).1
    rw [hsource, ht] at hm
    cases hm
    rw [ht'] at hm'
    cases hm'

/-- A new edge between a source and a sink that were not linked. -/
theorem addEdge (h : g.Sound) {a b : NodeKey} {s t : Node α} (hs : g.node? a = some s)
    (hs' : s.isSink = false) (ht : g.node? b = some t) (ht' : t.isSink = true)
    (hl : g.isLinked a b = false) : (g.addEdge a b).Sound := by
  have hab : a ≠ b := by
    rintro rfl
    rw [hs] at ht
    cases ht
    simp [hs'] at ht'
  have hfree : ∀ {k e}, g.edge? k = some e → ¬ e.Joins a b :=
    fun he => h.not_joins hs hs' ht ht' hl he
  have hjoins : ∀ {x y}, Edge.Joins ⟨a, b, 0⟩ x y → ∀ {e : Edge}, e.Joins x y → e.Joins a b := by
    rintro x y (⟨rfl, rfl⟩ | ⟨rfl, rfl⟩) e he
    · exact he
    · exact he.symm
  have hrole : ∀ {j r}, (∃ n, g.node? j = some n ∧ n.isSink = r) →
      ∃ n, (g.addEdge a b).node? j = some n ∧ n.isSink = r := by
    intro j r hj
    rw [addEdge_eq]
    exact role_onEnds hab (attach _) (fun _ => rfl) hj
  have hnode : ∀ {j n}, (g.addEdge a b).node? j = some n → ∃ m, g.node? j = some m ∧
      ((j = a ∨ j = b) ∧ n = attach g.edges.nextKey m ∨ ¬ (j = a ∨ j = b) ∧ n = m) := by
    intro j n hn
    rw [addEdge_eq] at hn
    exact exists_node_onEnds hab hn
  constructor
  case ends =>
    intro k e he
    rcases edge?_addEdge_cases he with ⟨-, rfl⟩ | he
    · exact ⟨hrole ⟨s, hs, hs'⟩, hrole ⟨t, ht, ht'⟩⟩
    · exact ⟨hrole (h.ends he).1, hrole (h.ends he).2⟩
  case mem_edges =>
    intro j n hn k
    obtain ⟨m, hm, ⟨hj, rfl⟩ | ⟨hj, rfl⟩⟩ := hnode hn
    · rw [attach, List.mem_append, List.mem_singleton, h.mem_edges hm]
      constructor
      · rintro (⟨e, he, ht⟩ | rfl)
        · exact ⟨e, edge?_addEdge_old he a b, ht⟩
        · exact ⟨⟨a, b, 0⟩, by rw [edge?_addEdge, if_pos rfl], hj⟩
      · rintro ⟨e, he, ht⟩
        rcases edge?_addEdge_cases he with ⟨rfl, -⟩ | he
        · exact Or.inr rfl
        · exact Or.inl ⟨e, he, ht⟩
    · rw [h.mem_edges hm]
      constructor
      · rintro ⟨e, he, ht⟩
        exact ⟨e, edge?_addEdge_old he a b, ht⟩
      · rintro ⟨e, he, ht⟩
        rcases edge?_addEdge_cases he with ⟨-, rfl⟩ | he
        · exact absurd ht hj
        · exact ⟨e, he, ht⟩
  case nodup =>
    intro j n hn
    obtain ⟨m, hm, ⟨-, rfl⟩ | ⟨-, rfl⟩⟩ := hnode hn
    · rw [attach, List.nodup_append]
      refine ⟨h.nodup hm, by simp, ?_⟩
      rintro k hk _ hk' rfl
      obtain ⟨e, he, -⟩ := (h.mem_edges hm k).1 hk
      rw [List.mem_singleton.1 hk', edge?_nextKey] at he
      cases he
    · exact h.nodup hm
  case unique =>
    intro x y k k' e e' he he' hj hj'
    rcases edge?_addEdge_cases he with ⟨rfl, rfl⟩ | he <;>
      rcases edge?_addEdge_cases he' with ⟨rfl, rfl⟩ | he'
    · rfl
    · exact absurd (hjoins hj hj') (hfree he')
    · exact absurd (hjoins hj' hj) (hfree he)
    · exact h.unique he he' hj hj'
  case flow_le_one =>
    intro k e he
    rcases edge?_addEdge_cases he with ⟨-, rfl⟩ | he
    · exact Nat.zero_le _
    · exact h.flow_le_one he
  case balance =>
    intro j n hn
    rw [carried_addEdge]
    obtain ⟨m, hm, ⟨-, rfl⟩ | ⟨-, rfl⟩⟩ := hnode hn
    · simp [attach, h.balance hm, carried_nextKey]
    · exact h.balance hm
  case flow_le_capacity =>
    intro j n hn
    obtain ⟨m, hm, ⟨-, rfl⟩ | ⟨-, rfl⟩⟩ := hnode hn
    · exact h.flow_le_capacity (n := m) hm
    · exact h.flow_le_capacity hm

end Sound

/-! ## Units and edges that come and go -/

/-- One summand of a list without repetition, taken out. -/
theorem sum_filter_ne {l : List EdgeKey} (hl : l.Nodup) {k : EdgeKey} (hk : k ∈ l)
    (f : EdgeKey → Nat) : f k + ((l.filter (· != k)).map f).sum = (l.map f).sum := by
  rw [← hl.erase_eq_filter]
  exact List.sum_map_erase f hk

theorem map_filter_ne_congr {l : List EdgeKey} {k : EdgeKey} {f f' : EdgeKey → Nat}
    (h : ∀ j, j ≠ k → f' j = f j) : (l.filter (· != k)).map f' = (l.filter (· != k)).map f := by
  refine List.map_congr_left fun j hj => h j ?_
  simpa using (List.mem_filter.1 hj).2

namespace Sound

variable {g : Graph α}

/-- A node lists an edge if it is an end of it. -/
theorem mem_iff_touches (h : g.Sound) {k : EdgeKey} {e : Edge} (he : g.edge? k = some e)
    {a : NodeKey} {n : Node α} (hn : g.node? a = some n) : k ∈ n.edges ↔ e.Touches a := by
  rw [h.mem_edges hn]
  constructor
  · rintro ⟨e', he', ht⟩
    rw [he] at he'
    cases he'
    exact ht
  · exact fun ht => ⟨e, he, ht⟩

/-- The edges of a node are those that it is an end of. -/
theorem mem_edgesOf (h : g.Sound) {a : NodeKey} {k : EdgeKey} :
    k ∈ g.edgesOf a ↔ ∃ e, g.edge? k = some e ∧ e.Touches a := by
  cases hn : g.node? a with
  | some n =>
    rw [edgesOf_eq hn]
    exact h.mem_edges hn k
  | none =>
    refine iff_of_false (by simp [edgesOf, hn]) ?_
    rintro ⟨e, he, ht⟩
    obtain ⟨n, hn'⟩ := h.exists_node he ht
    rw [hn] at hn'
    cases hn'

/-- Nodes that are not its ends do not notice what happens to an edge. -/
theorem map_edges_congr (h : g.Sound) {k : EdgeKey} {e : Edge} (he : g.edge? k = some e)
    {a : NodeKey} {n : Node α} (hn : g.node? a = some n) (ha : ¬ e.Touches a)
    {f f' : EdgeKey → Nat} (hf : ∀ j, j ≠ k → f' j = f j) : n.edges.map f' = n.edges.map f := by
  refine List.map_congr_left fun j hj => hf j ?_
  rintro rfl
  exact ha ((h.mem_iff_touches he hn).1 hj)

/-- One more unit along an edge that takes it. -/
theorem unitAlong (h : g.Sound) {k : EdgeKey} {e : Edge} (he : g.edge? k = some e)
    (hp : g.canPush k = true) : (g.unitAlong k e).Sound := by
  have hne := h.source_ne_sink he
  obtain ⟨e₁, he₁, hfree, ⟨s, hs, hs'⟩, t, ht, ht'⟩ := canPush_iff.1 hp
  obtain rfl : e = e₁ := Option.some.inj (he.symm.trans he₁)
  have hnode : ∀ {j n}, (g.unitAlong k e).node? j = some n → ∃ m, g.node? j = some m ∧
      ((j = e.source ∨ j = e.sink) ∧ n = pass m ∨ ¬ (j = e.source ∨ j = e.sink) ∧ n = m) := by
    intro j n hn
    exact exists_node_onEnds hne hn
  constructor
  case ends =>
    intro j e' he'
    obtain ⟨e₀, he₀, hsrc, hsnk, -⟩ := edge?_unitAlong_cases he'
    rw [hsrc, hsnk]
    exact ⟨role_onEnds hne pass (fun _ => rfl) (h.ends he₀).1,
      role_onEnds hne pass (fun _ => rfl) (h.ends he₀).2⟩
  case mem_edges =>
    intro j n hn i
    obtain ⟨m, hm, hnm⟩ := hnode hn
    have hl : n.edges = m.edges := by rcases hnm with ⟨-, rfl⟩ | ⟨-, rfl⟩ <;> rfl
    rw [hl, h.mem_edges hm]
    constructor
    · rintro ⟨e₀, he₀, ht⟩
      obtain ⟨e', he', hsrc, hsnk⟩ := edge?_unitAlong_old he₀ k e
      exact ⟨e', he', by rwa [Edge.Touches, hsrc, hsnk]⟩
    · rintro ⟨e', he', ht⟩
      obtain ⟨e₀, he₀, hsrc, hsnk, -⟩ := edge?_unitAlong_cases he'
      exact ⟨e₀, he₀, by rwa [Edge.Touches, hsrc, hsnk] at ht⟩
  case nodup =>
    intro j n hn
    obtain ⟨m, hm, ⟨-, rfl⟩ | ⟨-, rfl⟩⟩ := hnode hn
    · exact h.nodup (n := m) hm
    · exact h.nodup hm
  case unique =>
    intro a b i i' e₁ e₂ he₁ he₂ hj₁ hj₂
    obtain ⟨e₁', he₁', hsrc₁, hsnk₁, -⟩ := edge?_unitAlong_cases he₁
    obtain ⟨e₂', he₂', hsrc₂, hsnk₂, -⟩ := edge?_unitAlong_cases he₂
    rw [Edge.Joins, hsrc₁, hsnk₁] at hj₁
    rw [Edge.Joins, hsrc₂, hsnk₂] at hj₂
    exact h.unique he₁' he₂' hj₁ hj₂
  case flow_le_one =>
    intro j e' he'
    obtain ⟨e₀, he₀, -, -, ⟨rfl, hf⟩ | hf⟩ := edge?_unitAlong_cases he'
    · obtain rfl : e = e₀ := Option.some.inj (he.symm.trans he₀)
      rw [hf]
      exact hfree
    · rw [hf]
      exact h.flow_le_one he₀
  case balance =>
    intro j n hn
    obtain ⟨m, hm, ⟨hj, rfl⟩ | ⟨hj, rfl⟩⟩ := hnode hn
    · have hk := (h.mem_iff_touches he hm).2 hj
      have hold := sum_filter_ne (h.nodup hm) hk g.carried
      have hnew := sum_filter_ne (h.nodup hm) hk (g.unitAlong k e).carried
      rw [map_filter_ne_congr (f := g.carried) fun j hj => carried_unitAlong hj e,
        carried_unitAlong_self he] at hnew
      show m.flow + 1 = (m.edges.map _).sum
      rw [h.balance hm]
      omega
    · rw [h.balance hm, h.map_edges_congr he hm hj fun i hi => carried_unitAlong hi e]
  case flow_le_capacity =>
    intro j n hn
    obtain ⟨m, hm, ⟨hj, rfl⟩ | ⟨-, rfl⟩⟩ := hnode hn
    · rcases hj with rfl | rfl
      · rw [hm] at hs
        cases hs
        exact hs'
      · rw [hm] at ht
        cases ht
        exact ht'
    · exact h.flow_le_capacity hm

/-- One edge less. -/
theorem dropEdge (h : g.Sound) (k : EdgeKey) : (g.dropEdge k).Sound := by
  cases he : g.edge? k with
  | none => simpa [Graph.dropEdge, he] using h
  | some e =>
    have hne := h.source_ne_sink he
    have hedge : ∀ {j e'}, (g.dropEdge k).edge? j = some e' ↔ j ≠ k ∧ g.edge? j = some e' := by
      intro j e'
      rw [edge?_dropEdge]
      split <;> simp [*]
    have hnode : ∀ {j n}, (g.dropEdge k).node? j = some n → ∃ m, g.node? j = some m ∧
        ((j = e.source ∨ j = e.sink) ∧ n = detach k e.flow m ∨
          ¬ (j = e.source ∨ j = e.sink) ∧ n = m) := by
      intro j n hn
      rw [dropEdge_eq he] at hn
      exact exists_node_onEnds hne hn
    have hrole : ∀ {j r}, (∃ n, g.node? j = some n ∧ n.isSink = r) →
        ∃ n, (g.dropEdge k).node? j = some n ∧ n.isSink = r := by
      intro j r hj
      rw [dropEdge_eq he]
      exact role_onEnds hne (detach k e.flow) (fun _ => rfl) hj
    constructor
    case ends =>
      intro j e' he'
      have := h.ends (hedge.1 he').2
      exact ⟨hrole this.1, hrole this.2⟩
    case mem_edges =>
      intro j n hn i
      obtain ⟨m, hm, ⟨hj, rfl⟩ | ⟨hj, rfl⟩⟩ := hnode hn
      · simp only [detach, List.mem_filter, bne_iff_ne, h.mem_edges hm, hedge]
        constructor
        · rintro ⟨⟨e', he', ht⟩, hi⟩
          exact ⟨e', ⟨hi, he'⟩, ht⟩
        · rintro ⟨e', ⟨hi, he'⟩, ht⟩
          exact ⟨⟨e', he', ht⟩, hi⟩
      · simp only [h.mem_edges hm, hedge]
        constructor
        · rintro ⟨e', he', ht⟩
          refine ⟨e', ⟨?_, he'⟩, ht⟩
          rintro rfl
          rw [he] at he'
          cases he'
          exact hj ht
        · rintro ⟨e', ⟨-, he'⟩, ht⟩
          exact ⟨e', he', ht⟩
    case nodup =>
      intro j n hn
      obtain ⟨m, hm, ⟨-, rfl⟩ | ⟨-, rfl⟩⟩ := hnode hn
      · exact (h.nodup hm).filter _
      · exact h.nodup hm
    case unique =>
      intro a b i i' e₁ e₂ he₁ he₂
      exact h.unique (hedge.1 he₁).2 (hedge.1 he₂).2
    case flow_le_one =>
      intro j e' he'
      exact h.flow_le_one (hedge.1 he').2
    case balance =>
      intro j n hn
      obtain ⟨m, hm, ⟨hj, rfl⟩ | ⟨hj, rfl⟩⟩ := hnode hn
      · have hold := sum_filter_ne (h.nodup hm) ((h.mem_iff_touches he hm).2 hj) g.carried
        show m.flow - e.flow = ((m.edges.filter (· != k)).map _).sum
        rw [map_filter_ne_congr (f := g.carried) fun j hj => carried_dropEdge hj, h.balance hm,
          ← hold, carried_eq he]
        omega
      · rw [h.balance hm, h.map_edges_congr he hm hj fun i hi => carried_dropEdge hi]
    case flow_le_capacity =>
      intro j n hn
      obtain ⟨m, hm, ⟨-, rfl⟩ | ⟨-, rfl⟩⟩ := hnode hn
      · exact Nat.le_trans (Nat.sub_le _ _) (h.flow_le_capacity hm)
      · exact h.flow_le_capacity hm

end Sound

end Graph
end Matchbook.Flow
