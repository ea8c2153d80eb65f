/-
  Streaming through the root's items serves them greedily.

  * `Serving`: the lots track the graph, and the next step of the stream begins with the
    root item that is visited next;
  * `Serving.next_eq_none` and `Serving.next_eq_some`: a step of the stream is a round of
    visits;
  * `Serving.stream`: a stream that is long enough ends as the rounds do.
-/
import Matchbook.Proofs.Flow.Drain
import Matchbook.Proofs.Search.Tracking

namespace Matchbook.Search

open Matchbook.Flow

/-! ## Steps -/

/-- The lots track the graph, the next step of the stream begins with the first of the
    cycle of root items, as many units flow as lots were taken, and the cap leaves room for
    those that are wanted. -/
structure Serving (chain : Chain) (roots sources : List (NodeKey × OrderItem))
    (c : Collection Order) (g : Graph OrderItem) (wanted : Nat)
    (cycle : List (NodeKey × OrderItem)) (lots : List Lot) :
    Prop where
  turned : c.Turned g (roots.map Prod.fst) (cycle.map Prod.fst)
  rotated : roots ~r cycle
  tracked : Tracked chain roots sources g lots
  reached : taken lots = g.load (roots.map Prod.fst)
  wanted : taken lots + wanted = c.maxFlow

namespace Serving

variable {chain : Chain} {roots sources cycle : List (NodeKey × OrderItem)} {c : Collection Order}
  {g : Graph OrderItem} {wanted : Nat} {lots : List Lot}

/-- Going round the members for an open edge is going round the root items for one that
    takes a lot. -/
theorem round_rel (h : Serving chain roots sources c g wanted cycle lots) :
    Option.Rel (fun x y => (∀ e, g.edge? x.1 = some e →
        List.Forall₂ (Tracks (g.unitAlong x.1 e)) (supply sources) y.1) ∧ x.2 = y.2.map Prod.fst)
      (goRound (Collection.openEdge g) [] (cycle.map Prod.fst))
      (goRound (visit chain lots) [] cycle) := by
  have hround := goRound_rel (fun r hr => h.tracked.visit_rel (h.rotated.mem_iff.2 hr)) []
  have hmap := goRound_map (Collection.openEdge g) Prod.fst [] cycle
  rw [List.map_nil] at hmap
  rw [hmap]
  generalize goRound (fun r => Collection.openEdge g r.1) [] cycle = x at hround ⊢
  generalize goRound (visit chain lots) [] cycle = y at hround ⊢
  cases hround with
  | none => exact .none
  | some hxy => exact .some ⟨hxy.1, congrArg _ hxy.2⟩

/-- The stream ends if no more units are wanted or a round places none. -/
theorem next_eq_none (h : Serving chain roots sources c g wanted cycle lots)
    (hnone : wanted = 0 ∨ goRound (visit chain lots) [] cycle = none) :
    c.next g = (none, c, g) := by
  refine h.turned.next_eq_none ?_
  rcases hnone with rfl | hnone
  · exact Or.inl (h.reached ▸ h.wanted.ge)
  · have hround := h.round_rel
    rw [hnone] at hround
    generalize goRound (Collection.openEdge g) [] (cycle.map Prod.fst) = x at hround ⊢
    cases hround
    exact Or.inr rfl

/-- **A step** of the stream serves as a round of visits does. -/
theorem next_eq_some (h : Serving chain roots sources c g (wanted + 1) cycle lots)
    {lots' : List Lot} {cycle' : List (NodeKey × OrderItem)}
    (hround : goRound (visit chain lots) [] cycle = some (lots', cycle')) :
    ∃ step c' g', c.next g = (some step, c', g') ∧ c'.maxFlow = c.maxFlow ∧
      g'.edges.size = g.edges.size ∧ Serving chain roots sources c' g' wanted cycle' lots' := by
  have hreached := h.reached
  have hwanted := h.wanted
  have hrel := h.round_rel
  rw [hround] at hrel
  cases hedge : goRound (Collection.openEdge g) [] (cycle.map Prod.fst) with
  | none =>
    rw [hedge] at hrel
    cases hrel
  | some x =>
    obtain ⟨k, keys⟩ := x
    rw [hedge] at hrel
    cases hrel with
    | some hrel =>
      obtain ⟨htracks, hkeys⟩ := hrel
      obtain ⟨e, c', he, hpush, hnext, hmax, hturned⟩ := h.turned.next_eq_some (by omega) hedge
      obtain ⟨⟨r, -, hvisit⟩, hturned'⟩ := goRound_eq_some hround
      have hone := taken_visit hvisit
      obtain ⟨⟨a, ha, hopen⟩, -⟩ := goRound_eq_some hedge
      have hload := h.tracked.sound.load_unitAlong (.of_bears h.tracked.threaded.root)
        h.turned.holds.nodup (h.turned.rotated.mem_iff.2 ha) he
        (h.tracked.sound.touches_of_openEdge hopen he)
      refine ⟨_, c', _, hnext, hmax, Arena.size_modify .., ?_, ?_, ?_, by omega, by omega⟩
      · exact hkeys ▸ hturned
      · exact h.rotated.trans hturned'
      · exact ⟨h.tracked.sound.unitAlong he hpush, h.tracked.threaded.unitAlong h.tracked.sound he,
          h.tracked.single, htracks e he⟩

/-! ## Streams -/

/-- **A stream** that is not cut short serves as the rounds do. -/
theorem stream : ∀ {n wanted : Nat} {c : Collection Order} {g : Graph OrderItem}
    {cycle : List (NodeKey × OrderItem)} {lots : List Lot},
      Serving chain roots sources c g wanted cycle lots →
        g.edges.size < g.load (roots.map Prod.fst) + n →
          ∃ steps c' g', Collection.stream n c g = (steps, c', g') ∧
            c'.Holds g' (roots.map Prod.fst) ∧
              Tracked chain roots sources g' (rounds chain wanted cycle lots) ∧
                taken (rounds chain wanted cycle lots) = g'.load (roots.map Prod.fst) ∧
                  taken (rounds chain wanted cycle lots) ≤ c.maxFlow
  | n, 0, c, g, cycle, lots, h, _ => by
    have hstream : Collection.stream n c g = ([], c, g) := by
      cases n with
      | zero => rfl
      | succ n => rw [Collection.stream, h.next_eq_none (Or.inl rfl)]
    exact ⟨_, c, g, hstream, h.turned.holds, h.tracked, h.reached, h.wanted.le⟩
  | 0, wanted + 1, c, g, cycle, lots, h, hlong => by
    have hsize :=
      h.tracked.sound.load_le_size h.turned.holds.nodup (.of_bears h.tracked.threaded.root)
    omega
  | n + 1, wanted + 1, c, g, cycle, lots, h, hlong => by
    rw [rounds]
    cases hround : goRound (visit chain lots) [] cycle with
    | none =>
      have hstream : Collection.stream (n + 1) c g = ([], c, g) := by
        rw [Collection.stream, h.next_eq_none (Or.inr hround)]
      exact ⟨_, c, g, hstream, h.turned.holds, h.tracked, h.reached,
        h.wanted ▸ Nat.le_add_right _ _⟩
    | some found =>
      obtain ⟨lots', cycle'⟩ := found
      obtain ⟨step, c', g', hnext, hmax, hsize, h'⟩ := h.next_eq_some hround
      have hreached := h.reached
      have hreached' := h'.reached
      have hwanted := h.wanted
      have hwanted' := h'.wanted
      obtain ⟨steps, c'', g'', hstream, hend⟩ := stream (n := n) h' (by omega)
      refine ⟨step :: steps, c'', g'', ?_, hmax ▸ hend⟩
      rw [Collection.stream, hnext]
      dsimp only
      rw [hstream]

end Serving
end Matchbook.Search
