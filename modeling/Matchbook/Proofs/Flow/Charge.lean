/-
  How much a stream can miss.

  * `Collection.Feasible`: a set of edges of members that could all carry a unit;
  * `Graph.taken`: the edges that carry a unit through nodes of a list, no more than there
    are units through these (`Sound.card_taken_le`);
  * `Graph.charged`: edges that are taken or have a full end on one side;
    `Sound.card_charged_le`: they are charged to edges that are taken and end at the same node;
  * `run_saturate_half`: a stream through an empty graph reaches half of what could be reached.
-/
import Mathlib.Algebra.Order.BigOperators.Group.Finset
import Matchbook.Proofs.Flow.Drain

namespace Matchbook.Flow

variable {α β : Type}

/-! ## What could be reached -/

instance (e : Edge) (a : NodeKey) : Decidable (e.Touches a) :=
  inferInstanceAs (Decidable (_ ∨ _))

namespace Graph

/-- The node is an end of the edge behind a key. -/
def EndsAt (g : Graph α) (k : EdgeKey) (a : NodeKey) : Prop := ∃ e ∈ g.edge? k, e.Touches a

instance (g : Graph α) (k : EdgeKey) (a : NodeKey) : Decidable (g.EndsAt k a) :=
  inferInstanceAs (Decidable (∃ e ∈ g.edge? k, e.Touches a))

/-- Edges keep their ends while units pass. -/
theorem endsAt_iff {g g' : Graph α} (h : Streams g g') (hg : Grows g g') (k : EdgeKey)
    (a : NodeKey) : g'.EndsAt k a ↔ g.EndsAt k a := by
  constructor
  · rintro ⟨e', he', ht⟩
    obtain ⟨e, he, hsource, hsink⟩ := h.edge he'
    exact ⟨e, he, by rwa [Edge.Touches, hsource, hsink]⟩
  · rintro ⟨e, he, ht⟩
    obtain ⟨e', he', hsource, hsink⟩ := hg.edge he
    exact ⟨e', he', by rwa [Edge.Touches, hsource, hsink]⟩

instance (g : Graph α) (a : NodeKey) : Decidable (g.Full a) :=
  inferInstanceAs (Decidable (∃ n ∈ g.node? a, n.flow = n.capacity))

end Graph

/-- The edges end at members, and each could carry a unit: no node is an end of more of
    them than its capacity, and the cap of the collection allows as many. -/
structure Collection.Feasible (c : Collection β) (g : Graph α) (s : Finset EdgeKey) : Prop where
  member : ∀ k ∈ s, ∃ m ∈ c.members g, g.EndsAt k m
  capacity : ∀ {a n}, g.node? a = some n → (s.filter (g.EndsAt · a)).card ≤ n.capacity
  cap : s.card ≤ c.maxFlow

/-! ## Charging -/

/-- Two finite sets are compared by the parts that a function sends to the same place. -/
theorem card_le_card_of_fibers {s t : Finset EdgeKey} (f : EdgeKey → NodeKey)
    (h : ∀ a, (s.filter (f · = a)).card ≤ (t.filter (f · = a)).card) : s.card ≤ t.card := by
  have hs : ∀ k ∈ s, f k ∈ (s ∪ t).image f :=
    fun k hk => Finset.mem_image_of_mem f (Finset.mem_union_left t hk)
  have ht : ∀ k ∈ t, f k ∈ (s ∪ t).image f :=
    fun k hk => Finset.mem_image_of_mem f (Finset.mem_union_right s hk)
  calc s.card = ∑ a ∈ (s ∪ t).image f, (s.filter (f · = a)).card :=
        Finset.card_eq_sum_card_fiberwise hs
    _ ≤ ∑ a ∈ (s ∪ t).image f, (t.filter (f · = a)).card := Finset.sum_le_sum fun a _ => h a
    _ = t.card := (Finset.card_eq_sum_card_fiberwise ht).symm

namespace Graph

/-- Every edge that carries a unit ends at a node of the list. -/
def CarriesAt (g : Graph α) (l : List NodeKey) : Prop :=
  ∀ {k e}, g.edge? k = some e → 0 < e.flow → ∃ m ∈ l, e.Touches m

/-- The edges that carry a unit through nodes of the list. -/
def taken (g : Graph α) (l : List NodeKey) : Finset EdgeKey := (l.flatMap g.carrying).toFinset

/-- The node at which an edge ends on one side. -/
def endOf (g : Graph α) (isSink : Bool) (k : EdgeKey) : NodeKey := (g.edge? k).elim 0 (endOn isSink)

/-- The edges of a set that are taken, or end at a full node on one side. -/
def charged (g : Graph α) (l : List NodeKey) (isSink : Bool) (s : Finset EdgeKey) :
    Finset EdgeKey :=
  s.filter fun k => k ∈ g.taken l ∨ g.Full (g.endOf isSink k)

theorem endOf_eq {g : Graph α} {k : EdgeKey} {e : Edge} (he : g.edge? k = some e) (isSink : Bool) :
    g.endOf isSink k = endOn isSink e := by simp [endOf, he]

namespace Sound

variable {g : Graph α} {l : List NodeKey}

theorem card_taken_le (h : g.Sound) (l : List NodeKey) : (g.taken l).card ≤ g.load l :=
  (List.toFinset_card_le _).trans (h.length_flatMap_carrying l).le

/-- The node at which an edge ends on one side has the role of this side. -/
theorem exists_end (h : g.Sound) {k : EdgeKey} {e : Edge} (he : g.edge? k = some e) :
    ∀ isSink, ∃ n, g.node? (endOn isSink e) = some n ∧ n.isSink = isSink
  | false => (h.ends he).1
  | true => (h.ends he).2

theorem mem_taken (h : g.Sound) (hl : g.CarriesAt l) {k : EdgeKey} {e : Edge}
    (he : g.edge? k = some e) (hflow : 0 < e.flow) : k ∈ g.taken l := by
  obtain ⟨m, hm, ht⟩ := hl he hflow
  exact List.mem_toFinset.2 (List.mem_flatMap.2 ⟨m, hm, h.mem_carrying.2 ⟨e, he, hflow, ht⟩⟩)

/-- A full node is an end of as many edges that are taken as it has capacity. -/
theorem capacity_le_taken (h : g.Sound) (hl : g.CarriesAt l) {a : NodeKey} {n : Node α}
    (hn : g.node? a = some n) (hfull : n.flow = n.capacity) :
    n.capacity ≤ ((g.taken l).filter (g.endOf n.isSink · = a)).card := by
  have hsub : (g.carrying a).toFinset ⊆ (g.taken l).filter (g.endOf n.isSink · = a) := by
    intro k hk
    obtain ⟨e, he, hflow, ht⟩ := h.mem_carrying.1 (List.mem_toFinset.1 hk)
    refine Finset.mem_filter.2 ⟨h.mem_taken hl he hflow, ?_⟩
    rw [endOf_eq he]
    exact (h.touches_iff he hn).1 ht
  calc n.capacity = (g.carrying a).length := by rw [h.length_carrying, units_eq hn, hfull]
    _ = (g.carrying a).toFinset.card := (List.toFinset_card_of_nodup (h.nodup_carrying a)).symm
    _ ≤ _ := Finset.card_le_card hsub

/-- **Charging**: of edges that capacities allow together, no more are charged on one side
    than are taken. -/
theorem card_charged_le (h : g.Sound) (hl : g.CarriesAt l) (isSink : Bool) {s : Finset EdgeKey}
    (hs : ∀ k ∈ s, ∃ e, g.edge? k = some e)
    (hcapacity : ∀ {a n}, g.node? a = some n → (s.filter (g.EndsAt · a)).card ≤ n.capacity) :
    (g.charged l isSink s).card ≤ (g.taken l).card := by
  refine card_le_card_of_fibers (g.endOf isSink) fun a => ?_
  by_cases hfull : ∃ n, g.node? a = some n ∧ n.flow = n.capacity ∧ n.isSink = isSink
  · obtain ⟨n, hn, hfull, rfl⟩ := hfull
    have hsub : (g.charged l n.isSink s).filter (g.endOf n.isSink · = a) ⊆
        s.filter (g.EndsAt · a) := by
      intro k hk
      obtain ⟨hk, hend⟩ := Finset.mem_filter.1 hk
      obtain ⟨hk, -⟩ := Finset.mem_filter.1 hk
      obtain ⟨e, he⟩ := hs k hk
      rw [endOf_eq he] at hend
      exact Finset.mem_filter.2 ⟨hk, e, he, (h.touches_iff he hn).2 hend⟩
    calc ((g.charged l n.isSink s).filter (g.endOf n.isSink · = a)).card
        ≤ (s.filter (g.EndsAt · a)).card := Finset.card_le_card hsub
      _ ≤ n.capacity := hcapacity hn
      _ ≤ ((g.taken l).filter (g.endOf n.isSink · = a)).card := h.capacity_le_taken hl hn hfull
  · -- the node is not full on this side, so that its edges are all taken
    refine Finset.card_le_card fun k hk => ?_
    obtain ⟨hk, hend⟩ := Finset.mem_filter.1 hk
    obtain ⟨hk, htaken | ⟨n, hn, hn'⟩⟩ := Finset.mem_filter.1 hk
    · exact Finset.mem_filter.2 ⟨htaken, hend⟩
    · obtain ⟨e, he⟩ := hs k hk
      obtain ⟨m, hm, hrole⟩ := h.exists_end he isSink
      rw [endOf_eq he] at hn hend
      obtain rfl := Option.some.inj (hn.symm.trans hm)
      exact absurd ⟨n, hend ▸ hn, hn', hrole⟩ hfull

end Sound
end Graph

namespace Collection

variable {c c' : Collection β} {g g' : Graph α} {l : List NodeKey} {steps : List FlowStep}

/-- A stream brings units to edges of members alone. -/
theorem Drains.carriesAt (h : Drains c g steps c' g') (hl : c.Spells g l) (hs : g.Sound)
    (hg : g.CarriesAt l) : g'.CarriesAt l := by
  refine (h.keeps (P := fun c g => c.Spells g l ∧ g.Sound ∧ g.CarriesAt l) ?_ ⟨hl, hs, hg⟩).2.2
  rintro c g ⟨hl, hs, hg⟩
  rcases hl.next_cases with ⟨hn, -⟩ | ⟨m, hm, edge, e, behind, hopen, he, hpush, -, hn⟩ <;> rw [hn]
  · exact ⟨hl, hs, hg⟩
  · refine ⟨hl.unitAlong _ edge e, hs.unitAlong he hpush, fun {k d'} hd' hflow => ?_⟩
    obtain ⟨d, hd, hsource, hsink, hk⟩ := Graph.edge?_unitAlong_cases hd'
    simp only [Edge.Touches, hsource, hsink]
    rcases hk with ⟨rfl, -⟩ | hsame
    · obtain rfl := Option.some.inj (he.symm.trans hd)
      exact ⟨m, hm, hs.touches_of_openEdge hopen he⟩
    · exact hg hd (hsame ▸ hflow)

/-- A drained collection misses at most one edge for each end of one that is taken. -/
theorem Drained.card_le {s : Finset EdgeKey} (h : c.Drained g) (hl : c.Spells g l) (hs : g.Sound)
    (hg : g.CarriesAt l) (hf : c.Feasible g s) : s.card ≤ 2 * g.load l := by
  rcases h with hcap | hclosed
  · have hle := hf.cap
    rw [hl.flow_eq] at hcap
    omega
  have hside : ∀ isSink, (g.charged l isSink s).card ≤ (g.taken l).card := fun isSink =>
    hs.card_charged_le hg isSink
      (fun k hk => (hf.member k hk).elim fun m hm => hm.2.imp fun e he => he.1) hf.capacity
  have hcover : s ⊆ g.charged l false s ∪ g.charged l true s := by
    intro k hk
    obtain ⟨m, hm, hend⟩ := hf.member k hk
    obtain ⟨e, he, hone | hsource | hsink⟩ := (hclosed m hm).2 k (hs.mem_edgesOf.2 hend)
    · have htaken : k ∈ g.taken l := hs.mem_taken hg he (by omega)
      exact Finset.mem_union_left _ (Finset.mem_filter.2 ⟨hk, Or.inl htaken⟩)
    · rw [← show g.endOf false k = e.source from Graph.endOf_eq he false] at hsource
      exact Finset.mem_union_left _ (Finset.mem_filter.2 ⟨hk, Or.inr hsource⟩)
    · rw [← show g.endOf true k = e.sink from Graph.endOf_eq he true] at hsink
      exact Finset.mem_union_right _ (Finset.mem_filter.2 ⟨hk, Or.inr hsink⟩)
  calc s.card ≤ (g.charged l false s ∪ g.charged l true s).card := Finset.card_le_card hcover
    _ ≤ (g.charged l false s).card + (g.charged l true s).card := Finset.card_union_le _ _
    _ ≤ (g.taken l).card + (g.taken l).card := Nat.add_le_add (hside false) (hside true)
    _ = 2 * (g.taken l).card := (Nat.two_mul _).symm
    _ ≤ 2 * g.load l := Nat.mul_le_mul_left 2 (hs.card_taken_le l)

/-- What could be reached stays the same while units pass. -/
theorem Stays.feasible {s : Finset EdgeKey} (h : Stays c g l c' g') (hl : c.Spells g l)
    (hf : c.Feasible g s) : c'.Feasible g' s := by
  have hends := Graph.endsAt_iff h.streams h.grows
  refine ⟨fun k hk => ?_, fun {a n'} hn' => ?_, h.maxFlow ▸ hf.cap⟩
  · obtain ⟨m, hm, hend⟩ := hf.member k hk
    rw [hl.members_eq] at hm
    exact ⟨m, h.spells.members_eq ▸ hm, (hends k m).2 hend⟩
  · obtain ⟨n, hn, he⟩ := h.streams.places.exists_node hn'
    injection he with _ hcapacity
    rw [hcapacity, Finset.filter_congr fun k _ => hends k a]
    exact hf.capacity hn

end Collection

namespace Network

/-- **A stream reaches half of what could be reached**: whatever was done to the graph and
    its collections, if nothing flows, then streaming to the end, wherever the cursor of the
    collection is and whichever roles its members have, brings at least half as many units
    through the members as there are edges of members in any set that capacities and the cap
    allow. -/
theorem run_saturate_half (actions : List (Action α β)) {i : CollectionId} {c : Collection β}
    (hc : (run actions).collections[i]? = some c) (hstill : (run actions).graph.Still)
    (cursor : Option NodeKey) {s : Finset EdgeKey} (hf : c.Feasible (run actions).graph s) :
    s.card ≤ 2 * (Collection.saturate { c with cursor } (run actions).graph).1 := by
  have hs := run_sound actions
  obtain ⟨l, h⟩ := run_spells actions hc cursor
  obtain ⟨steps, c', g', hdrains, -⟩ := h.exists_drains hs
  have hstays := hdrains.stays h hs
  have hcarries : g'.CarriesAt l := hdrains.carriesAt h hs fun he hflow =>
    absurd (hstill he) (Nat.ne_of_gt hflow)
  rw [hdrains.saturate_eq, hstays.spells.flow_eq]
  exact (hdrains.drained h hs).card_le hstays.spells hstays.sound hcarries
    (hstays.feasible h ⟨hf.member, hf.capacity, hf.cap⟩)

/-- Two sinks in a collection, the first linked to two sources and the second to the one of
    these that the first takes. -/
def contested : List (Action Unit Unit) :=
  [.collect () 2, .addNode () 1 true, .addNode () 1 true, .addNode () 1 false, .addNode () 1 false,
    .link 0 2, .link 0 3, .link 1 2, .add 0 0, .add 0 1]

/-- The stream brings one unit where there could be two. -/
theorem run_saturate_half_contested :
    ∃ c, (run contested).collections[0]? = some c ∧ (run contested).graph.Still ∧
      c.Feasible (run contested).graph {1, 2} ∧
        (c.saturate (run contested).graph).1 = 1 ∧
          ({1, 2} : Finset EdgeKey).card ≤ 2 * (c.saturate (run contested).graph).1 := by
  have hc : (run contested).collections[0]? = some ⟨(), 0, 2, some 0, some 1, 2, none⟩ := by decide
  have hstill : (run contested).graph.Still := by
    intro k e he
    have hslots : (run contested).graph.edges.slots =
        [some ⟨2, 0, 0⟩, some ⟨3, 0, 0⟩, some ⟨2, 1, 0⟩] := by decide
    have hmem := List.mem_of_getElem? (Arena.get?_eq_some_iff.1 he)
    rw [hslots] at hmem
    simp only [List.mem_cons, Option.some.injEq, List.not_mem_nil, or_false] at hmem
    rcases hmem with rfl | rfl | rfl <;> rfl
  have hf :
      Collection.Feasible ⟨(), 0, 2, some 0, some 1, 2, none⟩ (run contested).graph {1, 2} := by
    refine ⟨by decide, fun {a n} hn => ?_, by decide⟩
    have hall : ∀ a < 4, ∀ n ∈ (run contested).graph.node? a,
        (({1, 2} : Finset EdgeKey).filter ((run contested).graph.EndsAt · a)).card ≤
          n.capacity := by
      decide
    exact hall a (Graph.node?_eq_some_lt hn) n hn
  exact ⟨_, hc, hstill, hf, by decide, run_saturate_half contested hc hstill none hf⟩

end Network
end Matchbook.Flow
