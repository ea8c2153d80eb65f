/-
  Sources and sinks, and the edges that carry their units.

  * `Sound.sink_eq` and `Sound.source_eq`: an edge of a sink leads to it, one of a source
    leaves it;
  * `Graph.AllOn`: nodes that are all sinks or all sources; a unit along an edge of one of
    them is one more for all of them (`Sound.load_unitAlong`);
  * `Graph.carrying`: the edges of a node that carry a unit, as many as units pass
    through it (`Sound.length_carrying`), and different ones for different nodes of one
    role (`Sound.nodup_flatMap_carrying`).
-/
import Matchbook.Proofs.Flow.Cap
import Matchbook.Proofs.Flow.Placing

namespace Matchbook.Flow

variable {α β : Type}

namespace Graph

/-! ## Roles -/

/-- The nodes of the list are all sinks, or all sources. -/
def AllOn (g : Graph α) (isSink : Bool) (l : List NodeKey) : Prop :=
  ∀ a ∈ l, (g.node? a).map Node.isSink = some isSink

instance (g : Graph α) (isSink : Bool) (l : List NodeKey) : Decidable (g.AllOn isSink l) :=
  inferInstanceAs (Decidable (∀ a ∈ l, _))

theorem AllOn.exists_node {g : Graph α} {isSink : Bool} {l : List NodeKey} (h : g.AllOn isSink l)
    {a : NodeKey} (ha : a ∈ l) : ∃ n, g.node? a = some n ∧ n.isSink = isSink :=
  Option.map_eq_some_iff.1 (h a ha)

/-- Nodes keep their roles. -/
theorem AllOn.samePlaces {g g' : Graph α} {isSink : Bool} {l : List NodeKey} (h : g.AllOn isSink l)
    (hg : SamePlaces g g') : g'.AllOn isSink l := by
  intro a ha
  have hidle : (Node.isSink : Node α → Bool) = Node.isSink ∘ Node.idle := rfl
  rw [hidle, ← Option.map_map, hg.node, Option.map_map, ← hidle]
  exact h a ha

/-- Nodes that stand for items have the role in which they do. -/
theorem AllOn.of_bears {g : Graph OrderItem} {isSink : Bool} {items : List (NodeKey × OrderItem)}
    (h : ∀ p ∈ items, g.Bears isSink p.1 p.2) : g.AllOn isSink (items.map Prod.fst) := by
  intro a ha
  obtain ⟨p, hp, rfl⟩ := List.mem_map.1 ha
  obtain ⟨n, hn, -, -, hrole⟩ := h p hp
  exact Option.map_eq_some_iff.2 ⟨n, hn, hrole⟩

namespace Sound

variable {g : Graph α} {k : EdgeKey} {e : Edge} {a : NodeKey} {n : Node α}

/-- An edge that touches a sink leads to it. -/
theorem sink_eq (h : g.Sound) (he : g.edge? k = some e) (hn : g.node? a = some n)
    (hsink : n.isSink = true) (ht : e.Touches a) : e.sink = a := by
  simpa [endOn, hsink] using (h.touches_iff he hn).1 ht

/-- An edge that touches a source leaves it. -/
theorem source_eq (h : g.Sound) (he : g.edge? k = some e) (hn : g.node? a = some n)
    (hsource : n.isSink = false) (ht : e.Touches a) : e.source = a := by
  simpa [endOn, hsource] using (h.touches_iff he hn).1 ht

/-- An open edge of a node is an edge of it. -/
theorem touches_of_openEdge (h : g.Sound) (hopen : Collection.openEdge g a = some k)
    (he : g.edge? k = some e) : e.Touches a := by
  obtain ⟨e', he', ht⟩ := h.mem_edgesOf.1 (Collection.openEdge_eq_some hopen).2.1
  obtain rfl := Option.some.inj (he.symm.trans he')
  exact ht

/-- A unit along an edge of one of some nodes of one role passes through no other. -/
theorem load_unitAlong (h : g.Sound) {isSink : Bool} {l : List NodeKey} (hl : g.AllOn isSink l)
    (hnodup : l.Nodup) (ha : a ∈ l) (he : g.edge? k = some e) (ht : e.Touches a) :
    (g.unitAlong k e).load l = g.load l + 1 := by
  obtain ⟨n, hn, hrole⟩ := hl.exists_node ha
  obtain ⟨⟨s, hs, hs'⟩, t, ht', hsink⟩ := h.ends he
  have hsource : e.source ∈ l → isSink = false := by
    intro hmem
    obtain ⟨m, hm, rfl⟩ := hl.exists_node hmem
    rw [hs] at hm
    cases hm
    exact hs'
  have htarget : e.sink ∈ l → isSink = true := by
    intro hmem
    obtain ⟨m, hm, rfl⟩ := hl.exists_node hmem
    rw [ht'] at hm
    cases hm
    exact hsink
  rw [Graph.load_unitAlong h he hnodup]
  cases isSink with
  | true =>
    rw [if_neg fun hmem => Bool.noConfusion (hsource hmem), if_pos (h.sink_eq he hn hrole ht ▸ ha)]
  | false =>
    rw [if_pos (h.source_eq he hn hrole ht ▸ ha),
      if_neg fun hmem => Bool.noConfusion (htarget hmem)]

/-- A unit along an edge of one of some nodes passes through one of them, or two. -/
theorem load_lt_unitAlong (h : g.Sound) {l : List NodeKey} (hnodup : l.Nodup) (ha : a ∈ l)
    (he : g.edge? k = some e) (ht : e.Touches a) : g.load l < (g.unitAlong k e).load l := by
  rw [Graph.load_unitAlong h he hnodup]
  rcases ht with rfl | rfl
  · rw [if_pos ha]
    omega
  · rw [if_pos ha]
    omega

end Sound

/-! ## Edges that carry a unit -/

/-- The edges of a node that carry a unit. -/
def carrying (g : Graph α) (k : NodeKey) : List EdgeKey :=
  (g.edgesOf k).filter fun j => decide (0 < g.carried j)

namespace Sound

variable {g : Graph α}

theorem carried_le_one (h : g.Sound) (k : EdgeKey) : g.carried k ≤ 1 := by
  unfold carried
  cases he : g.edge? k with
  | none => exact Nat.zero_le 1
  | some e => exact h.flow_le_one he

theorem length_filter_carried (h : g.Sound) (ks : List EdgeKey) :
    (ks.filter fun j => decide (0 < g.carried j)).length = (ks.map g.carried).sum := by
  induction ks with
  | nil => rfl
  | cons k ks ih =>
    have hle := h.carried_le_one k
    rw [List.filter_cons, List.map_cons, List.sum_cons, ← ih]
    split
    · next hpos =>
      rw [List.length_cons]
      have := of_decide_eq_true hpos
      omega
    · next hzero =>
      have : ¬ 0 < g.carried k := fun hpos => hzero (decide_eq_true hpos)
      omega

/-- The units through a node are those of its edges. -/
theorem units_eq_sum (h : g.Sound) (k : NodeKey) :
    g.units k = ((g.edgesOf k).map g.carried).sum := by
  cases hn : g.node? k with
  | none => simp [units, edgesOf, hn]
  | some n =>
    rw [units_eq hn, edgesOf_eq hn]
    exact h.balance hn

/-- As many edges of a node carry a unit as units pass through it. -/
theorem length_carrying (h : g.Sound) (k : NodeKey) : (g.carrying k).length = g.units k := by
  rw [carrying, h.length_filter_carried, h.units_eq_sum]

theorem length_flatMap_carrying (h : g.Sound) (l : List NodeKey) :
    (l.flatMap g.carrying).length = g.load l := by
  rw [load, List.length_flatMap]
  exact congrArg List.sum (List.map_congr_left fun a _ => h.length_carrying a)

/-- An edge of a node that carries a unit is one that ends at the node and does. -/
theorem mem_carrying (h : g.Sound) {k : NodeKey} {j : EdgeKey} :
    j ∈ g.carrying k ↔ ∃ e, g.edge? j = some e ∧ 0 < e.flow ∧ e.Touches k := by
  rw [carrying, List.mem_filter, h.mem_edgesOf]
  constructor
  · rintro ⟨⟨e, he, ht⟩, hpos⟩
    rw [carried_eq he] at hpos
    exact ⟨e, he, of_decide_eq_true hpos, ht⟩
  · rintro ⟨e, he, hpos, ht⟩
    exact ⟨⟨e, he, ht⟩, decide_eq_true (carried_eq he ▸ hpos)⟩

theorem nodup_carrying (h : g.Sound) (k : NodeKey) : (g.carrying k).Nodup := by
  unfold carrying
  cases hn : g.node? k with
  | none => simp [edgesOf, hn]
  | some n =>
    rw [edgesOf_eq hn]
    exact (h.nodup hn).filter _

/-- The edges that carry units of different nodes of one role are different. -/
theorem nodup_flatMap_carrying (h : g.Sound) {isSink : Bool} {l : List NodeKey} (hnodup : l.Nodup)
    (hl : g.AllOn isSink l) : (l.flatMap g.carrying).Nodup := by
  rw [List.nodup_flatMap]
  refine ⟨fun a _ => h.nodup_carrying a, hnodup.imp_of_mem fun {a b} ha hb hne k hk hk' => hne ?_⟩
  obtain ⟨m, hm, hrole⟩ := hl.exists_node ha
  obtain ⟨n, hn, hrole'⟩ := hl.exists_node hb
  obtain ⟨e, he, -, ht⟩ := h.mem_carrying.1 hk
  obtain ⟨e', he', -, ht'⟩ := h.mem_carrying.1 hk'
  obtain rfl := Option.some.inj (he.symm.trans he')
  rw [← (h.touches_iff he hm).1 ht, ← (h.touches_iff he hn).1 ht', hrole, hrole']

end Sound
end Graph
end Matchbook.Flow
