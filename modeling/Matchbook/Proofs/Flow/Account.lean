/-
  The account of a step of a stream.

  * `Graph.Passed`: one unit has passed along an edge that was empty, and nothing else has
    changed; `Sound.passed_unitAlong`: that is what pushing a unit does;
  * `Spells.flow_eq_edges`: the units through the members are those of the edges that leave
    members and of those that enter members;
  * `Collection.Accounted`: what a step tells is what it did;
  * `run_step_accounted` says so of every step that can be reached.
-/
import Matchbook.Proofs.Flow.Role
import Matchbook.Proofs.Flow.Seek

namespace Matchbook.Flow

variable {α β : Type}

namespace Graph

/-! ## One unit along an edge -/

/-- The edge was empty and carries one unit now, one more unit passes through each of its
    two ends, and nothing else has changed. -/
structure Passed (g : Graph α) (k : EdgeKey) (e : Edge) (g' : Graph α) : Prop where
  before : g.edge? k = some e
  empty : e.flow = 0
  behind : g'.edge? k = some { e with flow := 1 }
  two_ends : e.source ≠ e.sink
  ends : ∀ a, e.Touches a → ∃ n, g.node? a = some n ∧
    g'.node? a = some { n with flow := n.flow + 1 }
  edges : ∀ j, j ≠ k → g'.edge? j = g.edge? j
  nodes : ∀ a, ¬ e.Touches a → g'.node? a = g.node? a
  nextNode : g'.nextNode = g.nextNode
  nextEdge : g'.edges.nextKey = g.edges.nextKey
  nextCollection : g'.nextCollection = g.nextCollection

theorem Sound.passed_unitAlong {g : Graph α} (h : g.Sound) {k : EdgeKey} {e : Edge}
    (he : g.edge? k = some e) (hpush : g.canPush k = true) :
    g.Passed k e (g.unitAlong k e) := by
  obtain ⟨e', he', hfree, -⟩ := canPush_iff.1 hpush
  obtain rfl := Option.some.inj (he.symm.trans he')
  have hempty : e.flow = 0 := by omega
  have hne := h.source_ne_sink he
  have hnode := node?_onEnds g (g.edges.modify k fun e => { e with flow := e.flow + 1 }) hne pass
  constructor
  case before => exact he
  case empty => exact hempty
  case behind => rw [edge?_unitAlong, if_pos rfl, he, Option.map_some, hempty]
  case two_ends => exact hne
  case ends =>
    intro a ha
    obtain ⟨n, hn⟩ := h.exists_node he ha
    exact ⟨n, hn, ((hnode a).trans (if_pos ha)).trans (by rw [hn]; rfl)⟩
  case edges => exact fun j hj => by rw [edge?_unitAlong, if_neg hj]
  case nodes => exact fun a ha => (hnode a).trans (if_neg ha)
  case nextNode => simp [Graph.unitAlong, onEnds, modifyNode, Graph.nextNode]
  case nextEdge => simp [Graph.unitAlong, onEnds, modifyNode, Arena.nextKey, Arena.modify]
  case nextCollection => rfl

/-! ## Edges that leave and edges that enter -/

/-- Every edge of a node leaves it or enters it, and not both. -/
theorem Sound.units_eq_edges {g : Graph α} (h : g.Sound) (a : NodeKey)
    (leaves enters : EdgeKey → Bool)
    (hleaves : ∀ {k e}, g.edge? k = some e → leaves k = (a == e.source))
    (henters : ∀ {k e}, g.edge? k = some e → enters k = (a == e.sink)) :
    g.units a = (((g.edgesOf a).filter leaves).map g.carried).sum +
      (((g.edgesOf a).filter enters).map g.carried).sum := by
  have hsplit : ∀ k ∈ g.edgesOf a, g.carried k =
      (if leaves k then g.carried k else 0) + if enters k then g.carried k else 0 := by
    intro k hk
    obtain ⟨e, he, ht⟩ := h.mem_edgesOf.1 hk
    have hne := h.source_ne_sink he
    rw [hleaves he, henters he]
    rcases ht with rfl | rfl
    · simp [hne]
    · simp [hne.symm]
  rw [h.units_eq_sum, sum_map_filter, sum_map_filter, ← List.sum_map_add]
  exact congrArg List.sum (List.map_congr_left hsplit)

end Graph

namespace Collection

/-- The members are all sources or all sinks. -/
def OneRole (c : Collection β) (g : Graph α) : Prop := ∃ isSink, g.AllOn isSink (c.members g)

/-- What a step tells, and what becomes of the collection and the graph. -/
structure Accounted (c : Collection β) (g : Graph α) (step : FlowStep) (c' : Collection β)
    (g' : Graph α) : Prop where
  passed : ∃ e, g.Passed step.edge e g'
  pushed : step.pushed = 1
  total : step.total = c'.flow g'
  gain : c'.flow g' = c.flow g + 1
  capped : c'.flow g' ≤ c.maxFlow
  /-- Only the cursor has moved. -/
  collection : c' = { c with cursor := c'.cursor }

namespace Spells

variable {c : Collection β} {g : Graph α} {l : List NodeKey}

/-- The units through the members are those of the edges that leave members and of those
    that enter members. -/
theorem flow_eq_edges (h : c.Spells g l) (hs : g.Sound) :
    c.flow g = ((c.outgoing g).map g.carried).sum + ((c.incoming g).map g.carried).sum := by
  have hsum : ∀ keep : NodeKey → EdgeKey → Bool,
      ((l.flatMap fun m => (g.edgesOf m).filter (keep m)).map g.carried).sum =
        (l.map fun m => (((g.edgesOf m).filter (keep m)).map g.carried).sum).sum := by
    intro keep
    rw [List.map_flatMap, List.flatMap_def, List.sum_flatten, List.map_map]
    rfl
  unfold outgoing incoming memberEdges
  rw [h.flow_eq, h.members_eq, hsum, hsum, ← List.sum_map_add, Graph.load]
  refine congrArg List.sum (List.map_congr_left fun m _ => ?_)
  exact hs.units_eq_edges m _ _ (fun he => by rw [he]) (fun he => by rw [he])

/-- A step does nothing, or tells what it did. -/
theorem next_accounted (h : c.Spells g l) (hs : g.Sound) {isSink : Bool} (hl : g.AllOn isSink l) :
    c.next g = (none, c, g) ∨ ∃ step c' g', c.next g = (some step, c', g') ∧
      c.Accounted g step c' g' := by
  rcases h.next_cases with ⟨hnone, -⟩ | ⟨m, hm, edge, e, behind, hopen, he, hpush, hroom, hnext⟩
  · exact Or.inl hnone
  · have hflow : Collection.flow { c with cursor := some behind } (g.unitAlong edge e) =
        g.load l + 1 := by
      rw [(h.unitAlong _ edge e).flow_eq,
        hs.load_unitAlong hl h.nodup hm he (hs.touches_of_openEdge hopen he)]
    refine Or.inr ⟨_, _, _, hnext, ⟨e, hs.passed_unitAlong he hpush⟩, rfl, hflow.symm, ?_, ?_, rfl⟩
    · rw [hflow, h.flow_eq]
    · rw [hflow]
      exact hroom

end Spells
end Collection

namespace Network

/-- **The account of a step**: whatever is done to the graph and its collections, a step of
    the stream of a collection of sources, or of one of sinks, does what it tells: one unit
    more passes along one empty edge and through its two ends, the collection carries one
    unit more, which its cap allows, and nothing else changes but the cursor.  A step that
    tells nothing does nothing, as the cap is reached or no member has an open edge.  The
    units through any collection are those of the edges that leave its members and of those
    that enter them. -/
theorem run_step_accounted (actions : List (Action α β)) {i : CollectionId} {c : Collection β}
    (hc : (run actions).collections[i]? = some c) :
    (c.OneRole (run actions).graph → ∀ {step c' g'},
      c.next (run actions).graph = (some step, c', g') →
        c.Accounted (run actions).graph step c' g') ∧
      (∀ {c' g'}, c.next (run actions).graph = (none, c', g') →
        c' = c ∧ g' = (run actions).graph ∧ (c.maxFlow ≤ c.flow (run actions).graph ∨
          ∀ m ∈ c.members (run actions).graph, Collection.openEdge (run actions).graph m = none)) ∧
      c.flow (run actions).graph =
        ((c.outgoing (run actions).graph).map (run actions).graph.carried).sum +
          ((c.incoming (run actions).graph).map (run actions).graph.carried).sum := by
  have hs := run_sound actions
  obtain ⟨l, h⟩ := run_spells actions hc c.cursor
  refine ⟨?_, ?_, h.flow_eq_edges hs⟩
  · rintro ⟨isSink, hrole⟩ step c' g' hnext
    rw [h.members_eq] at hrole
    rcases h.next_accounted hs hrole with hn | ⟨step, c', g', hn, haccounted⟩ <;> rw [hnext] at hn
    · cases hn
    · cases hn
      exact haccounted
  · intro c' g' hnext
    rcases h.next_cases with ⟨hn, hend⟩ | ⟨m, -, edge, e, behind, -, -, -, -, hn⟩ <;>
      rw [hnext] at hn
    · cases hn
      rw [h.flow_eq, h.members_eq]
      exact ⟨rfl, rfl, hend⟩
    · cases hn

/-- A sink that takes two units, linked to two sources, alone in a collection. -/
def star : List (Action Unit Unit) :=
  [.collect () 2, .addNode () 2 true, .addNode () 1 false, .addNode () 1 false, .link 0 1,
    .link 0 2, .add 0 0]

/-- The first step takes the first edge. -/
theorem run_step_accounted_star :
    ∃ c c' g', (run star).collections[0]? = some c ∧ c.OneRole (run star).graph ∧
      c.next (run star).graph = (some ⟨0, 1, 1⟩, c', g') ∧
        c.Accounted (run star).graph ⟨0, 1, 1⟩ c' g' := by
  have hc : (run star).collections[0]? = some ⟨(), 0, 2, some 0, some 0, 1, none⟩ := by decide
  have hrole : Collection.OneRole ⟨(), 0, 2, some 0, some 0, 1, none⟩ (run star).graph :=
    ⟨true, by decide⟩
  have hnext : Collection.next ⟨(), 0, 2, some 0, some 0, 1, none⟩ (run star).graph =
      (some ⟨0, 1, 1⟩, (Collection.next ⟨(), 0, 2, some 0, some 0, 1, none⟩ (run star).graph).2) :=
    Prod.ext (by decide) rfl
  exact ⟨_, _, _, hc, hrole, hnext, (run_step_accounted star hc).1 hrole hnext⟩

end Network
end Matchbook.Flow
