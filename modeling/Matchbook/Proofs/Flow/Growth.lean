/-
  Graphs that grow before anything flows.

  * `Grows`: what there is in a graph is still there in another one;
  * `Graph.Still`: no edge carries anything, so nothing flows anywhere;
  * `Sound.link_eq`: a sink and a source that no edge joins can be linked, and the
    graph grows by one edge.
-/
import Matchbook.Proofs.Flow.Balance

namespace Matchbook.Flow

variable {α β : Type}

/-- The nodes and edges of the first graph are in the second one, whatever flows
    through them and whichever collections they belong to. -/
structure Grows (g g' : Graph α) : Prop where
  node : ∀ {k n}, g.node? k = some n → ∃ n', g'.node? k = some n' ∧ n'.data = n.data ∧
    n'.capacity = n.capacity ∧ n'.isSink = n.isSink
  edge : ∀ {k e}, g.edge? k = some e → ∃ e', g'.edge? k = some e' ∧ e'.source = e.source ∧
    e'.sink = e.sink

namespace Grows

variable {g g' g'' : Graph α}

theorem refl (g : Graph α) : Grows g g :=
  ⟨fun h => ⟨_, h, rfl, rfl, rfl⟩, fun h => ⟨_, h, rfl, rfl⟩⟩

theorem trans (h : Grows g g') (h' : Grows g' g'') : Grows g g'' where
  node hn := by
    obtain ⟨n', hn', hd, hc, hr⟩ := h.node hn
    obtain ⟨n'', hn'', hd', hc', hr'⟩ := h'.node hn'
    exact ⟨n'', hn'', hd'.trans hd, hc'.trans hc, hr'.trans hr⟩
  edge he := by
    obtain ⟨e', he', hs, ht⟩ := h.edge he
    obtain ⟨e'', he'', hs', ht'⟩ := h'.edge he'
    exact ⟨e'', he'', hs'.trans hs, ht'.trans ht⟩

theorem of_sameFlow (h : SameFlow g g') : Grows g g' where
  node hn := by
    obtain ⟨n', hn', he⟩ := h.symm.exists_node hn
    injection he with hd hc hr
    exact ⟨n', hn', hd.symm, hc.symm, hr.symm⟩
  edge {k e} he := by
    refine ⟨e, ?_, rfl, rfl⟩
    rw [Graph.edge?, h.edges]
    exact he

theorem of_samePlaces (h : SamePlaces g g')
    (hedge : ∀ {k e}, g.edge? k = some e → ∃ e', g'.edge? k = some e' ∧ e'.source = e.source ∧
      e'.sink = e.sink) : Grows g g' where
  node {k n} hn := by
    have hn' := h.node k
    rw [hn] at hn'
    obtain ⟨n', hn', he⟩ := Option.map_eq_some_iff.1 hn'
    injection he with hd hc hr
    exact ⟨n', hn', hd, hc, hr⟩
  edge := hedge

theorem addEdge (g : Graph α) (a b : NodeKey) : Grows g (g.addEdge a b) :=
  .of_samePlaces (.addEdge g a b) fun he => ⟨_, Graph.edge?_addEdge_old he a b, rfl, rfl⟩

theorem unitAlong (g : Graph α) (k : EdgeKey) (e : Edge) : Grows g (g.unitAlong k e) :=
  .of_samePlaces (.unitAlong g k e) fun he => Graph.edge?_unitAlong_old he k e

end Grows

namespace Graph

/-- No edge carries anything. -/
def Still (g : Graph α) : Prop := ∀ {k e}, g.edge? k = some e → e.flow = 0

theorem Still.congr {g g' : Graph α} (h : g.Still) (hs : SameFlow g g') : g'.Still := by
  intro k e he
  rw [edge?, hs.edges] at he
  exact h he

theorem Still.addEdge {g : Graph α} (h : g.Still) (a b : NodeKey) : (g.addEdge a b).Still := by
  intro k e he
  rcases edge?_addEdge_cases he with ⟨-, rfl⟩ | he
  · rfl
  · exact h he

theorem leads_addEdge {g : Graph α} {a b x y : NodeKey} (h : (g.addEdge a b).Leads x y) :
    g.Leads x y ∨ x = a ∧ y = b := by
  obtain ⟨k, e, he, rfl, rfl⟩ := h
  rcases edge?_addEdge_cases he with ⟨-, rfl⟩ | he
  · exact Or.inr ⟨rfl, rfl⟩
  · exact Or.inl ⟨k, e, he, rfl, rfl⟩

theorem leads_congr {g g' : Graph α} (h : SameFlow g g') {a b : NodeKey} :
    g'.Leads a b ↔ g.Leads a b := by simp only [Leads, edge?, h.edges]

namespace Sound

variable {g : Graph α}

theorem carried_eq_zero (hs : g.Still) (k : EdgeKey) : g.carried k = 0 := by
  unfold carried
  cases he : g.edge? k with
  | none => rfl
  | some e => exact hs he

theorem flow_eq_zero (h : g.Sound) (hs : g.Still) {k : NodeKey} {n : Node α}
    (hn : g.node? k = some n) : n.flow = 0 := by
  rw [h.balance hn]
  refine List.sum_eq_zero fun f hf => ?_
  obtain ⟨e, -, rfl⟩ := List.mem_map.1 hf
  exact carried_eq_zero hs e

/-- Nothing flows through a collection. -/
theorem collection_flow_eq_zero (h : g.Sound) (hs : g.Still) (c : Collection β) : c.flow g = 0 := by
  show (((c.members g).map _).sum) = 0
  refine List.sum_eq_zero fun f hf => ?_
  obtain ⟨k, -, rfl⟩ := List.mem_map.1 hf
  split
  · next n hn => exact h.flow_eq_zero hs hn
  · rfl

/-- Edges lead from nodes that are there. -/
theorem not_leads (h : g.Sound) {a b : NodeKey} (ha : g.node? a = none) : ¬ g.Leads a b := by
  rintro ⟨k, e, he, rfl, -⟩
  obtain ⟨n, hn⟩ := h.exists_node he (Or.inl rfl)
  rw [ha] at hn
  cases hn

/-- A sink and a source that no edge joins can be linked. -/
theorem link_eq (h : g.Sound) {a b : NodeKey} {m n : Node α} (ha : g.node? a = some m)
    (hm : m.isSink = true) (hb : g.node? b = some n) (hn : n.isSink = false)
    (hl : ¬ g.Leads b a) :
    g.link a b = (.ok g.edges.nextKey, g.addEdge b a) ∧ (g.addEdge b a).Sound := by
  have hlinked : g.isLinked b a = false := by
    rw [Bool.eq_false_iff, ne_eq, h.isLinked_iff hb hn]
    exact hl
  refine ⟨?_, h.addEdge hb hn ha hm hlinked⟩
  simp [Graph.link, ha, hb, hm, hn, hlinked]

end Sound
end Graph
end Matchbook.Flow
