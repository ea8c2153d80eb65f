/-
  Whole streams.

  * `Streams`: units have passed along some edges, and nothing else has changed;
  * `stream_induction` carries an invariant along a stream;
  * `saturate_spec`: streaming to the end gives the units that pass through the
    members then, and leaves a sound graph; `next_load_le` is why sinks are not taken
    over their cap.
-/
import Matchbook.Proofs.Flow.Cap

namespace Matchbook.Flow

variable {α β : Type}

/-- Units have passed along some edges, and nothing else has changed. -/
structure Streams (g g' : Graph α) : Prop where
  places : SamePlaces g g'
  edge : ∀ {k e'}, g'.edge? k = some e' → ∃ e, g.edge? k = some e ∧ e.source = e'.source ∧
    e.sink = e'.sink

/-- No edge leaves a node of the list. -/
def Graph.NoExit (g : Graph α) (l : List NodeKey) : Prop :=
  ∀ {k e}, g.edge? k = some e → e.source ∉ l

namespace Streams

variable {g g' g'' : Graph α}

theorem refl (g : Graph α) : Streams g g := ⟨.refl g, fun h => ⟨_, h, rfl, rfl⟩⟩

theorem trans (h : Streams g g') (h' : Streams g' g'') : Streams g g'' where
  places := h.places.trans h'.places
  edge he := by
    obtain ⟨e', he', hs', ht'⟩ := h'.edge he
    obtain ⟨e, he, hs, ht⟩ := h.edge he'
    exact ⟨e, he, hs.trans hs', ht.trans ht'⟩

theorem unitAlong (g : Graph α) (k : EdgeKey) (e : Edge) : Streams g (g.unitAlong k e) where
  places := .unitAlong g k e
  edge {j d'} hd := by
    obtain ⟨d, hd, hs, ht, -⟩ := Graph.edge?_unitAlong_cases hd
    exact ⟨d, hd, hs.symm, ht.symm⟩

theorem next (c : Collection β) (g : Graph α) : Streams g (c.next g).2.2 := by
  rcases c.next_cases g with hn | ⟨_, edge, _, e, -, -, -, -, -, hn⟩ <;> rw [hn]
  · exact refl g
  · exact unitAlong g edge e

theorem noExit (h : Streams g g') {l : List NodeKey} (hl : g.NoExit l) : g'.NoExit l := by
  intro k e' he'
  obtain ⟨e, he, hs, -⟩ := h.edge he'
  exact hs ▸ hl he

end Streams

namespace Collection

/-- What a step of a stream keeps is kept by any number of steps. -/
theorem stream_induction {P : Collection β → Graph α → Prop}
    (step : ∀ c g, P c g → P (c.next g).2.1 (c.next g).2.2) :
    ∀ (n : Nat) {c : Collection β} {g : Graph α}, P c g → P (stream n c g).2.1 (stream n c g).2.2
  | 0, _, _, h => h
  | n + 1, c, g, h => by
    have hnext := step c g h
    unfold stream
    rcases hn : c.next g with ⟨_ | s, c', g'⟩ <;> rw [hn] at hnext
    · exact hnext
    · exact stream_induction step n hnext

/-- A step of a stream keeps the cap, and keeps to it where no edge leaves a member: the
    unit that it pushes passes through one member alone. -/
theorem next_load_le {c : Collection β} {g : Graph α} {l : List NodeKey} (h : c.Holds g l)
    (hs : g.Sound) (hexit : g.NoExit l) (hload : g.load l ≤ c.maxFlow) :
    (c.next g).2.1.maxFlow = c.maxFlow ∧ (c.next g).2.2.load l ≤ c.maxFlow := by
  rcases c.next_cases g with hn | ⟨_, edge, _, e, hroom, -, -, he, -, hn⟩ <;> rw [hn]
  · exact ⟨rfl, hload⟩
  · refine ⟨rfl, ?_⟩
    have hexit : e.source ∉ l := hexit he
    have hroom : g.load l < c.maxFlow := h.flow_eq ▸ hroom
    rw [Graph.load_unitAlong hs he h.nodup, if_neg hexit]
    split <;> omega

/-- **Saturating**: streaming to the end moves units along edges only, gives the units
    that pass through the members then, and keeps to the cap where no edge leaves a
    member. -/
theorem saturate_spec {c : Collection β} {g : Graph α} {l : List NodeKey} (h : c.Holds g l)
    (hs : g.Sound) (hexit : g.NoExit l) (hload : g.load l ≤ c.maxFlow) :
    ∃ c' g', c.saturate g = (g'.load l, c', g') ∧ Streams g g' ∧ g'.Sound ∧
      g'.load l ≤ c.maxFlow := by
  have hend := stream_induction
    (P := fun c' g' => c'.Holds g' l ∧ Streams g g' ∧ g'.Sound ∧ c'.maxFlow = c.maxFlow ∧
      g'.load l ≤ c'.maxFlow)
    (fun c' g' ⟨hl, hg, hs, hmax, hload⟩ => by
      obtain ⟨hmax', hload'⟩ := next_load_le hl hs (hg.noExit hexit) hload
      exact ⟨(next_spec hl).2.2, hg.trans (.next c' g'), hs.next c', hmax'.trans hmax,
        hmax' ▸ hload'⟩)
    (g.edges.size + 1) ⟨h, .refl g, hs, rfl, hload⟩
  unfold saturate
  rcases hstream : stream (g.edges.size + 1) c g with ⟨steps, c', g'⟩
  rw [hstream] at hend
  obtain ⟨hl, hg, hs, hmax, hload⟩ := hend
  exact ⟨c', g', by rw [← hl.flow_eq], hg, hs, hmax ▸ hload⟩

end Collection
end Matchbook.Flow
