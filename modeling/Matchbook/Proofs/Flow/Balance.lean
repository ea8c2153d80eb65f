/-
  The balance of a graph over whole runs.

  * every operation keeps a sound graph sound, also when it is refused;
  * `Sound.sideFlow_eq`: in a sound graph as many units leave sources as reach
    sinks, one for each edge that carries flow;
  * `run_sound`, `run_balanced` say this of every run of a network.
-/
import Mathlib.Algebra.BigOperators.Fin
import Matchbook.Proofs.Flow.Network
import Matchbook.Proofs.Flow.Stream
import Matchbook.Proofs.Flow.Unlink

namespace Matchbook.Flow

variable {α β : Type}

namespace Graph

/-! ## Operations keep soundness -/

namespace Sound

variable {g : Graph α}

theorem link (h : g.Sound) (a b : NodeKey) : (g.link a b).2.Sound := by
  rcases g.link_cases a b with ⟨f, hl⟩ | ⟨x, y, s, t, -, hs, hs', ht, ht', hf, hl⟩ <;> rw [hl]
  · exact h
  · exact h.addEdge hs hs' ht ht' hf

theorem foldl_dropEdge (h : g.Sound) (ks : List EdgeKey) : (ks.foldl Graph.dropEdge g).Sound := by
  induction ks generalizing g with
  | nil => exact h
  | cons k ks ih => exact ih (h.dropEdge k)

theorem unlink (h : g.Sound) (a : NodeKey) : (g.unlink a).2.Sound := by
  cases hn : g.node? a with
  | none =>
    rw [unlink_of_none hn]
    exact h
  | some n =>
    rw [unlink_eq h hn]
    exact h.foldl_dropEdge n.edges

theorem pushUnit (h : g.Sound) (k : EdgeKey) : (g.pushUnit k).2.Sound := by
  rcases g.pushUnit_eq k with ⟨e, he, hp, hu⟩ | ⟨-, hu⟩ <;> rw [hu]
  · exact h.unitAlong he hp
  · exact h

theorem add (h : g.Sound) (c : Collection β) (k : NodeKey) : (c.add g k).2.2.Sound :=
  h.congr (c.add_sameFlow g k)

theorem remove (h : g.Sound) (c : Collection β) (k : NodeKey) : (c.remove g k).2.2.Sound := by
  obtain ⟨g₁, hs, ⟨-, hr⟩ | hr⟩ := c.remove_cases g k <;> rw [hr]
  · exact h.congr hs
  · exact (h.congr hs).unlink k

theorem next (h : g.Sound) (c : Collection β) : (c.next g).2.2.Sound := by
  rcases c.next_cases g with hn | ⟨_, edge, _, e, -, -, -, he, hp, hn⟩ <;> rw [hn]
  · exact h
  · exact h.unitAlong he hp

end Sound

/-! ## Sources and sinks -/

/-- The units through all sinks, or through all sources. -/
def sideFlow (g : Graph α) (isSink : Bool) : Nat :=
  ((g.nodes.filter (·.isSink == isSink)).map Node.flow).sum

/-- The end of an edge on one side. -/
def endOn (isSink : Bool) (e : Edge) : NodeKey := if isSink then e.sink else e.source

/-- A sum over a list, by places. -/
theorem sum_map_eq_sum_range {γ : Type} (l : List γ) (f : γ → Nat) :
    (l.map f).sum = ∑ i ∈ Finset.range l.length, l[i]?.elim 0 f := by
  rw [Finset.sum_range, ← Fin.sum_univ_fun_getElem]
  exact Finset.sum_congr rfl fun i _ => by simp

theorem sum_map_filter {γ : Type} (l : List γ) (p : γ → Bool) (f : γ → Nat) :
    ((l.filter p).map f).sum = (l.map fun x => if p x then f x else 0).sum := by
  rw [List.sum_map_ite]
  simp

/-- Edges with one unit or none: as many carry flow as units are carried. -/
theorem length_flowing {g : Graph α} (h : g.Sound) :
    g.flowing.length = ∑ k ∈ Finset.range g.edges.slots.length, g.carried k := by
  have hslots : ∀ (slots : List (Option Edge)) (i : Nat), (∀ e, some e ∈ slots → e.flow ≤ 1) →
      (((slots.zipIdx i).filterMap fun (slot, k) => slot.map fun e => (k, e)).filter
        fun (_, e) => decide (0 < e.flow)).length =
          (slots.map (Option.elim · 0 Edge.flow)).sum := by
    intro slots
    induction slots with
    | nil => intro _ _; rfl
    | cons slot slots ih =>
      intro i hle
      have ih := ih (i + 1) fun e he => hle e (List.mem_cons_of_mem _ he)
      cases slot with
      | none => simpa using ih
      | some e =>
        have := hle e List.mem_cons_self
        rcases Nat.eq_zero_or_pos e.flow with hf | hf
        · simpa [hf] using ih
        · have hf : e.flow = 1 := by omega
          simp [hf, ih, Nat.add_comm]
  have hle : ∀ e, some e ∈ g.edges.slots → e.flow ≤ 1 := by
    intro e he
    obtain ⟨k, hk⟩ := List.getElem?_of_mem he
    exact h.flow_le_one (k := k) (Arena.get?_eq_some_iff.2 hk)
  rw [flowing, Arena.entries, hslots g.edges.slots 0 hle, sum_map_eq_sum_range]
  refine Finset.sum_congr rfl fun k _ => ?_
  simp only [carried, edge?, Arena.get?]
  rcases g.edges.slots[k]? with _ | _ | e <;> rfl

/-- An edge touches a node if it ends there on the side of the node. -/
theorem Sound.touches_iff {g : Graph α} (h : g.Sound) {k : EdgeKey} {e : Edge}
    (he : g.edge? k = some e) {a : NodeKey} {n : Node α} (hn : g.node? a = some n) :
    e.Touches a ↔ endOn n.isSink e = a := by
  obtain ⟨⟨s, hs, hs'⟩, t, ht, ht'⟩ := h.ends he
  constructor
  · rintro (rfl | rfl)
    · rw [hn] at hs
      cases hs
      simp [endOn, hs']
    · rw [hn] at ht
      cases ht
      simp [endOn, ht']
  · intro hend
    cases hr : n.isSink <;> simp only [endOn, hr] at hend
    · exact Or.inl hend.symm
    · exact Or.inr hend.symm

/-- The edges of a node are those that end there on the side of the node. -/
theorem Sound.mem_iff_endOn {g : Graph α} (h : g.Sound) {a : NodeKey} {n : Node α}
    (hn : g.node? a = some n) (k : EdgeKey) :
    k ∈ n.edges ↔ ∃ e, g.edge? k = some e ∧ endOn n.isSink e = a := by
  rw [h.mem_edges hn]
  exact exists_congr fun e => and_congr_right fun he => h.touches_iff he hn

/-- **As many units leave sources, and as many reach sinks, as edges carry flow**:
    every unit is counted at the one edge that it goes along. -/
theorem Sound.sideFlow_eq {g : Graph α} (h : g.Sound) (isSink : Bool) :
    g.sideFlow isSink = g.flowing.length := by
  classical
  set live := (Finset.range g.edges.slots.length).filter fun k => (g.edge? k).isSome with hlive
  set side := (Finset.range g.nodes.length).filter fun a =>
    ∃ n, g.node? a = some n ∧ n.isSink = isSink with hside
  set ending : EdgeKey → NodeKey := fun k => (g.edge? k).elim 0 (endOn isSink) with hending
  have hmem : ∀ {k e}, g.edge? k = some e → k ∈ live := by
    intro k e he
    have hk := Arena.get?_eq_some_iff.1 he
    simp [hlive, he, (List.getElem?_eq_some_iff.1 hk).1]
  have hmaps : ∀ k ∈ live, ending k ∈ side := by
    intro k hk
    obtain ⟨e, he⟩ := Option.isSome_iff_exists.1 (Finset.mem_filter.1 hk).2
    obtain ⟨⟨s, hs, hs'⟩, t, ht, ht'⟩ := h.ends he
    cases isSink
    · simp only [hending, he, Option.elim_some, endOn, hside, Finset.mem_filter, Finset.mem_range]
      exact ⟨node?_eq_some_lt hs, s, hs, hs'⟩
    · simp only [hending, he, Option.elim_some, endOn, hside, Finset.mem_filter, Finset.mem_range]
      exact ⟨node?_eq_some_lt ht, t, ht, ht'⟩
  have hnode : ∀ a ∈ side, (g.node? a).elim 0 Node.flow =
      ∑ k ∈ live with ending k = a, g.carried k := by
    intro a ha
    obtain ⟨n, hn, hr⟩ := (Finset.mem_filter.1 ha).2
    have hset : n.edges.toFinset = live.filter fun k => ending k = a := by
      ext k
      rw [List.mem_toFinset, h.mem_iff_endOn hn, Finset.mem_filter, hr]
      constructor
      · rintro ⟨e, he, hend⟩
        exact ⟨hmem he, by simpa [hending, he] using hend⟩
      · rintro ⟨hk, hend⟩
        obtain ⟨e, he⟩ := Option.isSome_iff_exists.1 (Finset.mem_filter.1 hk).2
        exact ⟨e, he, by simpa [hending, he] using hend⟩
    rw [hn, Option.elim_some, h.balance hn, ← List.sum_toFinset _ (h.nodup hn), hset]
  calc g.sideFlow isSink
      = ∑ a ∈ Finset.range g.nodes.length, if ∃ n, g.node? a = some n ∧ n.isSink = isSink then
          (g.node? a).elim 0 Node.flow else 0 := by
        rw [sideFlow, sum_map_filter, sum_map_eq_sum_range]
        refine Finset.sum_congr rfl fun a _ => ?_
        show (g.node? a).elim 0 _ = _
        cases hn : g.node? a <;> simp
    _ = ∑ a ∈ side, (g.node? a).elim 0 Node.flow := (Finset.sum_filter _ _).symm
    _ = ∑ a ∈ side, ∑ k ∈ live with ending k = a, g.carried k := Finset.sum_congr rfl hnode
    _ = ∑ k ∈ live, g.carried k := Finset.sum_fiberwise_of_maps_to hmaps _
    _ = ∑ k ∈ Finset.range g.edges.slots.length, g.carried k := by
        refine Finset.sum_filter_of_ne fun k _ hk => ?_
        unfold carried at hk
        cases he : g.edge? k with
        | none => simp [he] at hk
        | some e => rfl
    _ = g.flowing.length := (length_flowing h).symm

end Graph

/-! ## Runs -/

/-- An action on a collection keeps what its operation keeps of the graph. -/
theorem Network.onCollection_graph {P : Graph α → Prop} {w : Network α β} (i : CollectionId)
    {operation : Collection β → Graph α → Answer × Collection β × Graph α} (hw : P w.graph)
    (h : ∀ c, P (operation c w.graph).2.2) : P (w.onCollection i operation).2.graph := by
  rcases w.onCollection_cases i operation with ⟨-, he⟩ | ⟨c, -, he⟩ <;> rw [he]
  · exact hw
  · exact h c

/-- No action makes a sound graph unsound. -/
theorem Network.step_sound (w : Network α β) (a : Action α β) (h : w.graph.Sound) :
    (w.step a).2.graph.Sound := by
  cases a with
  | addNode data capacity isSink => exact h.addNode data capacity isSink
  | link a b => exact h.link a b
  | unlink node => exact h.unlink node
  | push edge => exact h.pushUnit edge
  | collect data maxFlow => exact h.congr ⟨fun _ => rfl, rfl⟩
  | add i node => exact onCollection_graph i h fun c => h.add c node
  | remove i node => exact onCollection_graph i h fun c => h.remove c node
  | stream i => exact onCollection_graph i h fun c => h.next c

theorem Network.run_sound (actions : List (Action α β)) : (run actions).graph.Sound :=
  run_induction (P := fun w => w.graph.Sound) .empty (fun w a h => w.step_sound a h) actions

/-- **The balance of every graph that can be reached**: whatever is done to the
    graph and its collections, edges, lists of edges and flows agree, and the units
    that leave sources, those that reach sinks and the edges that carry flow are
    equally many. -/
theorem Network.run_balanced (actions : List (Action α β)) :
    (run actions).graph.Sound ∧
      (run actions).graph.sideFlow false = (run actions).graph.flowing.length ∧
      (run actions).graph.sideFlow true = (run actions).graph.flowing.length :=
  have h := run_sound actions
  ⟨h, h.sideFlow_eq false, h.sideFlow_eq true⟩

end Matchbook.Flow
