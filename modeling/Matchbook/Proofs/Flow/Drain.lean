/-
  Streams that are drained.

  * `Collection.Drains` takes steps until there is none, however many there are;
    `Drains.saturate_eq`: streaming with fuel for every edge leaves the same, since no two
    steps take the same edge (`Drains.edges_spec`, `Arena.length_le_size`);
  * `Spells.exists_drains`: there are no more steps than units are missing from the cap;
  * `Drains.stays`: the members stay what they are, and units pass along edges only;
  * `Collection.Drained`: the cap is reached, or no edge of a member takes a unit;
  * `run_drains` puts this together for every network that can be reached.
-/
import Matchbook.Proofs.Flow.Role
import Matchbook.Proofs.Flow.Saturate
import Matchbook.Proofs.Flow.Seek

namespace Matchbook.Flow

variable {α β : Type}

/-! ## How many edges there are -/

namespace Arena

theorem size_eq (a : Arena α) :
    a.size = (List.range a.slots.length).countP fun k => (a.get? k).isSome := by
  have hslots : a.slots = (List.range a.slots.length).map a.get? := by
    refine List.ext_getElem (by simp) fun k hk _ => ?_
    simp [get?, hk]
  rw [size]
  conv_lhs => rw [hslots]
  rw [List.countP_map]
  rfl

theorem size_modify (a : Arena α) (k : Nat) (f : α → α) : (a.modify k f).size = a.size := by
  have hlength : (a.modify k f).slots.length = a.slots.length := List.length_modify ..
  rw [size_eq, size_eq, hlength]
  refine List.countP_congr fun j _ => ?_
  rw [get?_modify]
  split
  · rw [Option.isSome_map]
  · exact Iff.rfl

/-- There are no more keys with values than values. -/
theorem length_le_size {a : Arena α} {ks : List Nat} (hnodup : ks.Nodup)
    (hks : ∀ k ∈ ks, ∃ x, a.get? k = some x) : ks.length ≤ a.size := by
  rw [size_eq, List.countP_eq_length_filter]
  refine (List.subperm_of_subset hnodup fun k hk => List.mem_filter.2 ?_).length_le
  obtain ⟨x, hx⟩ := hks k hk
  refine ⟨List.mem_range.2 ?_, by rw [hx]; rfl⟩
  exact (List.getElem?_eq_some_iff.1 (get?_eq_some_iff.1 hx)).1

end Arena

/-- No more units pass through nodes of one role than there are edges. -/
theorem Graph.Sound.load_le_size {g : Graph α} (h : g.Sound) {isSink : Bool}
    {l : List NodeKey} (hnodup : l.Nodup) (hl : g.AllOn isSink l) : g.load l ≤ g.edges.size := by
  rw [← h.length_flatMap_carrying]
  refine Arena.length_le_size (h.nodup_flatMap_carrying hnodup hl) fun k hk => ?_
  obtain ⟨a, -, hk⟩ := List.mem_flatMap.1 hk
  obtain ⟨e, he, -⟩ := h.mem_carrying.1 hk
  exact ⟨e, he⟩

/-! ## Nothing more fits -/

namespace Graph

/-- As many units pass through the node as may. -/
def Full (g : Graph α) (a : NodeKey) : Prop := ∃ n, g.node? a = some n ∧ n.flow = n.capacity

/-- A node without room is full. -/
theorem Sound.full {g : Graph α} (h : g.Sound) {a : NodeKey} {n : Node α} (hn : g.node? a = some n)
    (hroom : g.hasRoom a = false) : g.Full a := by
  have hle := h.flow_le_capacity hn
  simp only [hasRoom, hn, Node.hasCapacity, decide_eq_false_iff_not] at hroom
  exact ⟨n, hn, by omega⟩

/-- An edge takes no unit if it carries one already or has a full end. -/
theorem Sound.canPush_eq_false_iff {g : Graph α} (h : g.Sound) {k : EdgeKey} {e : Edge}
    (he : g.edge? k = some e) :
    g.canPush k = false ↔ e.flow = 1 ∨ g.Full e.source ∨ g.Full e.sink := by
  obtain ⟨⟨s, hs, -⟩, t, ht, -⟩ := h.ends he
  have hroom : ∀ {a : NodeKey} {n : Node α}, g.node? a = some n →
      (g.hasRoom a = false ↔ g.Full a) := by
    intro a n hn
    refine ⟨h.full hn, fun ⟨m, hm, hfull⟩ => ?_⟩
    simp [hasRoom, hm, Node.hasCapacity, hfull]
  have hone := h.flow_le_one he
  have hflow : e.isSaturated = true ↔ e.flow = 1 := by
    rw [Edge.isSaturated, decide_eq_true_eq]
    omega
  simp only [canPush, he, Bool.and_eq_false_iff, Bool.not_eq_false', hflow, hroom hs, hroom ht,
    or_assoc]

/-- Each edge of a node without an open edge carries a unit already, or has a full end. -/
theorem Sound.closed {g : Graph α} (h : g.Sound) {m : NodeKey}
    (hclosed : Collection.openEdge g m = none) : Collection.pushableEdge g m = none ∧
      ∀ k ∈ g.edgesOf m, ∃ e, g.edge? k = some e ∧
        (e.flow = 1 ∨ g.Full e.source ∨ g.Full e.sink) := by
  have hedge : ∀ k ∈ g.edgesOf m, g.canPush k = false ∧ ∃ e, g.edge? k = some e := by
    intro k hk
    obtain ⟨e, he, ht⟩ := h.mem_edgesOf.1 hk
    refine ⟨?_, e, he⟩
    unfold Collection.openEdge at hclosed
    split at hclosed
    · exact Bool.eq_false_iff.2 (List.find?_eq_none.1 hclosed k hk)
    · next hroom =>
      rcases ht with rfl | rfl <;> simp [canPush, he, hroom]
  refine ⟨List.find?_eq_none.2 fun k hk => Bool.eq_false_iff.1 (hedge k hk).1, fun k hk => ?_⟩
  obtain ⟨hpush, e, he⟩ := hedge k hk
  exact ⟨e, he, (h.canPush_eq_false_iff he).1 hpush⟩

end Graph

/-! ## Streaming without a bound -/

namespace Collection

/-- The steps of a stream until there is none, and the collection and the graph that they
    leave. -/
inductive Drains : (c : Collection β) → (g : Graph α) → (steps : List FlowStep) →
    (c' : Collection β) → (g' : Graph α) → Prop
  | done {c c' : Collection β} {g g' : Graph α} : c.next g = (none, c', g') → Drains c g [] c' g'
  | step {c c₁ c' : Collection β} {g g₁ g' : Graph α} {s : FlowStep} {steps : List FlowStep} :
    c.next g = (some s, c₁, g₁) → Drains c₁ g₁ steps c' g' → Drains c g (s :: steps) c' g'

/-- A step takes an empty edge. -/
theorem next_eq_some {c c' : Collection β} {g g' : Graph α} {s : FlowStep}
    (h : c.next g = (some s, c', g')) :
    ∃ e, g.edge? s.edge = some e ∧ e.flow = 0 ∧ g' = g.unitAlong s.edge e := by
  rcases c.next_cases g with hn | ⟨-, edge, behind, e, -, -, -, he, hpush, hn⟩ <;> rw [h] at hn
  · cases hn
  · obtain ⟨e', he', hfree, -⟩ := Graph.canPush_iff.1 hpush
    obtain rfl := Option.some.inj (he.symm.trans he')
    cases hn
    exact ⟨e, he, by omega, rfl⟩

namespace Drains

variable {c c' : Collection β} {g g' : Graph α} {steps : List FlowStep}

/-- Fuel for one step more than there are does not interrupt the stream. -/
theorem stream_eq (h : Drains c g steps c' g') :
    ∀ {n : Nat}, steps.length < n → stream n c g = (steps, c', g') := by
  induction h with
  | done hnone =>
    intro n hn
    obtain ⟨n, rfl⟩ := Nat.exists_eq_add_of_le' (show 1 ≤ n from hn)
    simp only [stream, hnone]
  | step hnext _ ih =>
    intro n hn
    rw [List.length_cons] at hn
    obtain ⟨n, rfl⟩ := Nat.exists_eq_add_of_le' (show 1 ≤ n by omega)
    simp only [stream, hnext]
    rw [ih (by omega)]

/-- The steps take different edges, and all of them were empty. -/
theorem edges_spec (h : Drains c g steps c' g') : (steps.map FlowStep.edge).Nodup ∧
    ∀ k ∈ steps.map FlowStep.edge, ∃ e, g.edge? k = some e ∧ e.flow = 0 := by
  induction h with
  | done => exact ⟨List.nodup_nil, nofun⟩
  | @step c c₁ c' g g₁ g' s steps hnext _ ih =>
    obtain ⟨hnodup, hempty⟩ := ih
    obtain ⟨e, he, hzero, rfl⟩ := next_eq_some hnext
    rw [List.map_cons]
    refine ⟨List.nodup_cons.2 ⟨fun hmem => ?_, hnodup⟩, fun k hk => ?_⟩
    · -- behind the step its edge carries a unit
      obtain ⟨d, hd, hzero'⟩ := hempty s.edge hmem
      have hone := Graph.carried_unitAlong_self he
      rw [Graph.carried_eq hd, hzero'] at hone
      omega
    · rcases List.mem_cons.1 hk with rfl | hk
      · exact ⟨e, he, hzero⟩
      · obtain ⟨d', hd', hzero'⟩ := hempty k hk
        obtain ⟨d, hd, -, -, hflow⟩ := Graph.edge?_unitAlong_cases hd'
        exact ⟨d, hd, by omega⟩

/-- Streaming to the end takes all steps. -/
theorem saturate_eq (h : Drains c g steps c' g') : c.saturate g = (c'.flow g', c', g') := by
  obtain ⟨hnodup, hempty⟩ := h.edges_spec
  have hlength := Arena.length_le_size hnodup fun k hk => (hempty k hk).imp fun e he => he.1
  rw [List.length_map] at hlength
  unfold saturate
  rw [h.stream_eq (Nat.lt_succ_of_le hlength)]

/-- Behind the last step there is none, and nothing changes any more. -/
theorem last (h : Drains c g steps c' g') : c'.next g' = (none, c', g') := by
  induction h with
  | @done c c' g g' hnone =>
    rcases c.next_cases g with hn | ⟨-, edge, behind, e, -, -, -, -, -, hn⟩ <;> rw [hnone] at hn
    · cases hn
      exact hnone
    · cases hn
  | step _ _ ih => exact ih

/-- What every step keeps is kept by the stream. -/
theorem keeps {P : Collection β → Graph α → Prop}
    (step : ∀ c g, P c g → P (c.next g).2.1 (c.next g).2.2) (h : Drains c g steps c' g') :
    P c g → P c' g' := by
  induction h with
  | @done c c' g g' hnone =>
    intro hP
    have hnext := step c g hP
    rwa [hnone] at hnext
  | @step c c₁ c' g g₁ g' s steps hnext _ ih =>
    intro hP
    have hstep := step c g hP
    rw [hnext] at hstep
    exact ih hstep

end Drains

variable {c c' : Collection β} {g g' : Graph α} {l : List NodeKey} {steps : List FlowStep}

/-! ## The end of a stream -/

/-- The search of a step ends, and visits each member at most once before that; a search with
    fuel for as many nodes as the graph has finds the same. -/
def SearchEnds (c : Collection β) (g : Graph α) : Prop :=
  ∀ head, c.head = some head → ∃ visited found,
    Seeks g head (c.startOf g head) (c.startOf g head) visited found ∧ visited.Nodup ∧
      visited ⊆ c.members g ∧
        seek g head (c.startOf g head) g.nodes.length (c.startOf g head) = found

theorem Spells.searchEnds (h : c.Spells g l) : c.SearchEnds g := by
  intro head hh
  obtain ⟨visited, found, hseeks, hnodup, hvisited, -, hseek⟩ := h.seeks hh (h.startOf_mem hh)
  exact ⟨visited, found, hseeks, hnodup, h.members_eq ▸ hvisited, hseek⟩

/-- A stream ends before the units that are missing from the cap are used up, as every step
    brings the members one of them, or two. -/
theorem Spells.exists_drains {c : Collection β} {g : Graph α} (h : c.Spells g l) (hs : g.Sound) :
    ∃ steps c' g', Drains c g steps c' g' ∧ steps.length ≤ c.maxFlow - g.load l := by
  rcases h.next_cases with ⟨hnone, -⟩ | ⟨m, hm, edge, e, behind, hopen, he, hpush, hroom, hnext⟩
  · exact ⟨[], c, g, .done hnone, Nat.zero_le _⟩
  · have hload := hs.load_lt_unitAlong h.nodup hm he (hs.touches_of_openEdge hopen he)
    obtain ⟨steps, c', g', hdrains, hlength⟩ :=
      (h.unitAlong (some behind) edge e).exists_drains (hs.unitAlong he hpush)
    refine ⟨_ :: steps, c', g', .step hnext hdrains, ?_⟩
    rw [List.length_cons]
    dsimp only at hlength
    omega
termination_by c.maxFlow - g.load l
decreasing_by omega

/-- What a stream leaves as it is. -/
structure Stays (c : Collection β) (g : Graph α) (l : List NodeKey) (c' : Collection β)
    (g' : Graph α) : Prop where
  spells : c'.Spells g' l
  sound : g'.Sound
  maxFlow : c'.maxFlow = c.maxFlow
  streams : Streams g g'
  grows : Grows g g'

theorem Drains.stays (h : Drains c g steps c' g') (hl : c.Spells g l) (hs : g.Sound) :
    Stays c g l c' g' := by
  refine h.keeps (P := Stays c g l) (fun c' g' hkept => ?_) ⟨hl, hs, rfl, .refl g, .refl g⟩
  rcases hkept.spells.next_cases with ⟨hn, -⟩ | ⟨m, -, edge, e, behind, -, he, hpush, -, hn⟩ <;>
    rw [hn]
  · exact hkept
  · exact ⟨hkept.spells.unitAlong _ edge e, hkept.sound.unitAlong he hpush, hkept.maxFlow,
      hkept.streams.trans (.unitAlong g' edge e), hkept.grows.trans (.unitAlong g' edge e)⟩

/-- The cap is reached, or nothing more fits: no member has an edge that takes a unit, as
    each of its edges carries one already or has a full end. -/
def Drained (c : Collection β) (g : Graph α) : Prop :=
  c.maxFlow ≤ c.flow g ∨ ∀ m ∈ c.members g, pushableEdge g m = none ∧
    ∀ k ∈ g.edgesOf m, ∃ e, g.edge? k = some e ∧ (e.flow = 1 ∨ g.Full e.source ∨ g.Full e.sink)

/-- **The end of a stream**: behind its last step the collection is drained. -/
theorem Drains.drained (h : Drains c g steps c' g') (hl : c.Spells g l) (hs : g.Sound) :
    c'.Drained g' := by
  have hkept := h.stays hl hs
  have hflow := hkept.spells.flow_eq
  have hmembers := hkept.spells.members_eq
  rcases hkept.spells.next_cases with ⟨-, hcap | hclosed⟩ | ⟨m, -, edge, e, behind, -, -, -, -, hn⟩
  · exact Or.inl (hflow ▸ hcap)
  · exact Or.inr fun m hm => hkept.sound.closed (hclosed m (hmembers ▸ hm))
  · rw [h.last] at hn
    cases hn

end Collection

namespace Network

/-- **Streams end**: whatever is done to the graph and its collections, and wherever the
    cursor of a collection is, the search of a step ends, and so does the stream, after no
    more steps than units are missing from the cap; then the collection is drained. -/
theorem run_drains (actions : List (Action α β)) {i : CollectionId} {c : Collection β}
    (hc : (run actions).collections[i]? = some c) (cursor : Option NodeKey) :
    Collection.SearchEnds { c with cursor } (run actions).graph ∧
      ∃ steps c' g', Collection.Drains { c with cursor } (run actions).graph steps c' g' ∧
        Collection.saturate { c with cursor } (run actions).graph = (c'.flow g', c', g') ∧
          steps.length ≤ c.maxFlow - c.flow (run actions).graph ∧
            c'.members g' = c.members (run actions).graph ∧ c'.maxFlow = c.maxFlow ∧
              c'.Drained g' := by
  have hs := run_sound actions
  obtain ⟨l, h⟩ := run_spells actions hc cursor
  have hflow : c.flow (run actions).graph = (run actions).graph.load l := h.flow_eq
  have hmembers : c.members (run actions).graph = l := h.members_eq
  obtain ⟨steps, c', g', hdrains, hlength⟩ := h.exists_drains hs
  have hstays := hdrains.stays h hs
  refine ⟨h.searchEnds, steps, c', g', hdrains, hdrains.saturate_eq, ?_, ?_, hstays.maxFlow,
    hdrains.drained h hs⟩
  · rw [hflow]
    exact hlength
  · rw [hstays.spells.members_eq, hmembers]

/-- A sink and a source that are linked, both in a collection, and another source. -/
def mixed : List (Action Unit Unit) :=
  [.collect () 3, .addNode () 2 true, .addNode () 1 false, .addNode () 1 false, .link 0 1,
    .link 0 2, .add 0 0, .add 0 1]

/-- The stream begins with the first member if the cursor is on another node. -/
theorem run_drains_mixed :
    ∃ c, (run mixed).collections[0]? = some c ∧
      ∃ steps c' g', Collection.Drains { c with cursor := some 2 } (run mixed).graph steps c' g' ∧
        steps.length ≤ 3 ∧ c'.Drained g' := by
  have hc : (run mixed).collections[0]? = some ⟨(), 0, 3, some 0, some 1, 2, none⟩ := by decide
  obtain ⟨-, steps, c', g', hdrains, -, hlength, -, -, hdrained⟩ := run_drains mixed hc (some 2)
  exact ⟨_, hc, steps, c', g', hdrains, hlength.trans (Nat.sub_le 3 _), hdrained⟩

end Network
end Matchbook.Flow
