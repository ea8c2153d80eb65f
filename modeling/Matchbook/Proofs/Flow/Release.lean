/-
  What is freed when a node loses its edges.

  * `Sound.node?_foldl_dropEdge`: taking edges out of a sound graph takes them off the list
    of every node, in place, and their units with them;
  * `Graph.Released`: a node has neither edges nor units, its edges are gone, its neighbours
    have lost just the edge to it with what that carried, and nothing else has changed;
  * `Sound.released_unlink`, `Collection.Holds.released_remove`: that is what unlinking a
    node does, and a member that leaves its collection;
  * `run_released` says so of every network that can be reached.
-/
import Matchbook.Proofs.Flow.Account

namespace Matchbook.Flow

variable {α β : Type}

/-- An edge that leads from one node to another ends at both. -/
theorem Edge.touches_of_other {e : Edge} {a b : NodeKey} (h : e.other a = some b) :
    e.Touches a ∧ e.Touches b := by
  unfold Edge.other at h
  split at h
  · next ha =>
    cases h
    exact ⟨Or.inl ha, Or.inr rfl⟩
  · split at h
    · next ha =>
      cases h
      exact ⟨Or.inr ha, Or.inl rfl⟩
    · cases h

/-- An edge that ends at two nodes leads from the one to the other, and joins them. -/
theorem Edge.other_of_touches {e : Edge} {a b : NodeKey} (hne : b ≠ a) (ha : e.Touches a)
    (hb : e.Touches b) : e.other a = some b ∧ e.Joins a b := by
  unfold Edge.other
  rcases ha with rfl | rfl <;> rcases hb with rfl | rfl
  · exact absurd rfl hne
  · exact ⟨if_pos rfl, Or.inl ⟨rfl, rfl⟩⟩
  · exact ⟨by simp [hne.symm], Or.inr ⟨rfl, rfl⟩⟩
  · exact absurd rfl hne

namespace Graph

variable {g g' : Graph α} {a b : NodeKey} {n m : Node α}

/-! ## Taking edges out -/

theorem edge?_foldl_dropEdge (g : Graph α) (ks : List EdgeKey) (j : EdgeKey) :
    (ks.foldl dropEdge g).edge? j = if j ∈ ks then none else g.edge? j := by
  induction ks generalizing g with
  | nil => rfl
  | cons k ks ih =>
    rw [List.foldl_cons, ih, edge?_dropEdge]
    by_cases hj : j = k
    · simp [hj]
    · simp [hj]

namespace Sound

/-- Every node loses the edge from its list, if it is there. -/
theorem node?_dropEdge (h : g.Sound) (k : EdgeKey) (hm : g.node? b = some m) :
    ∃ flow, (g.dropEdge k).node? b = some { m with edges := m.edges.filter (· != k), flow } := by
  have habsent : k ∉ m.edges → some m = some { m with edges := m.edges.filter (· != k) } := by
    intro hk
    have hfilter : m.edges.filter (· != k) = m.edges :=
      List.filter_eq_self.2 fun j hj => bne_iff_ne.2 fun hjk => hk (hjk ▸ hj)
    rw [hfilter]
  cases he : g.edge? k with
  | none =>
    have hk : k ∉ m.edges := by
      rw [h.mem_edges hm, he]
      rintro ⟨e, ⟨⟩, -⟩
    refine ⟨m.flow, ?_⟩
    rw [Graph.dropEdge, he]
    exact hm.trans (habsent hk)
  | some e =>
    rw [dropEdge_eq he, node?_onEnds _ _ (h.source_ne_sink he), hm]
    by_cases hb : e.Touches b
    · exact ⟨m.flow - e.flow, if_pos hb⟩
    · refine ⟨m.flow, (if_neg hb).trans (habsent ?_)⟩
      rwa [h.mem_iff_touches he hm]

/-- **Taking edges out**: every node loses those of them that are its own, keeps the others
    in their order, and has the units of these. -/
theorem node?_foldl_dropEdge (h : g.Sound) (ks : List EdgeKey) (hm : g.node? b = some m) :
    (ks.foldl Graph.dropEdge g).node? b = some { m with
      edges := m.edges.filter fun j => j ∉ ks
      flow := ((m.edges.filter fun j => j ∉ ks).map g.carried).sum } := by
  have hedges : ∀ (ks : List EdgeKey) {g : Graph α} {m : Node α}, g.Sound → g.node? b = some m →
      ∃ flow, (ks.foldl Graph.dropEdge g).node? b =
        some { m with edges := m.edges.filter fun j => j ∉ ks, flow } := by
    intro ks
    induction ks with
    | nil => exact fun {g m} _ hm => ⟨m.flow, by simpa using hm⟩
    | cons k ks ih =>
      intro g m h hm
      obtain ⟨flow, hnode⟩ := h.node?_dropEdge k hm
      obtain ⟨flow', hnode'⟩ := ih (h.dropEdge k) hnode
      refine ⟨flow', hnode'.trans ?_⟩
      simp only [List.filter_filter, List.mem_cons, not_or, Bool.decide_and, bne_eq,
        decide_not, Bool.and_comm]
      rfl
  obtain ⟨flow, hnode⟩ := hedges ks h hm
  -- the graph that is left is sound, so the units are those of the edges that are left
  have hsound : (ks.foldl Graph.dropEdge g).Sound := h.foldl_dropEdge ks
  have hflow : flow = _ := hsound.balance hnode
  have hcarried : (m.edges.filter fun j => j ∉ ks).map (ks.foldl Graph.dropEdge g).carried =
      (m.edges.filter fun j => j ∉ ks).map g.carried := by
    refine List.map_congr_left fun j hj => ?_
    have hj : j ∉ ks := by simpa using (List.mem_filter.1 hj).2
    simp only [carried, edge?_foldl_dropEdge, if_neg hj]
  rw [hnode, hflow, hcarried]

end Sound

/-! ## A node without edges -/

/-- The node has lost its edges and units, and others only what they shared with it. -/
structure Released (g : Graph α) (a : NodeKey) (n : Node α) (g' : Graph α) : Prop where
  /-- The units of the node were those of its edges. -/
  units : n.flow = (n.edges.map g.carried).sum
  /-- It has neither edges nor units any more, -/
  node : (g'.node? a).map Node.alone = some { n.alone with edges := [], flow := 0 }
  /-- and just its edges are gone. -/
  edge : ∀ k, g'.edge? k = if k ∈ n.edges then none else g.edge? k
  /-- A neighbour has lost the edge between them, and what that carried. -/
  neighbour : ∀ {k e b}, g.edge? k = some e → e.other a = some b → ∃ m, g.node? b = some m ∧
    k ∈ m.edges ∧ e.flow ≤ m.flow ∧ (g'.node? b).map Node.alone =
      some { m.alone with edges := m.edges.erase k, flow := m.flow - e.flow }
  /-- Nothing has become of other nodes. -/
  elsewhere : ∀ {b}, b ≠ a → (∀ k e, g.edge? k = some e → e.other a ≠ some b) →
    (g'.node? b).map Node.alone = (g.node? b).map Node.alone

/-- The collections of the nodes do not matter. -/
theorem Released.congr {g₁ : Graph α} {n₁ : Node α} (h : g₁.Released a n₁ g') (hg : SameFlow g g₁)
    (hn : n₁.alone = n.alone) : g.Released a n g' := by
  have hparts := hn
  injection hparts with _ _ _ hflow hedges
  have hedge : ∀ k, g₁.edge? k = g.edge? k := fun k => by rw [edge?, edge?, hg.edges]
  have hcarried : g₁.carried = g.carried := funext fun k => by rw [carried, carried, hedge]
  constructor
  case units => rw [← hflow, ← hedges, ← hcarried, h.units]
  case node => rw [h.node, hn]
  case edge => exact fun k => by rw [h.edge, hedge, hedges]
  case neighbour =>
    intro k e b he hb
    obtain ⟨m₁, hm₁, hk, hle, hnode⟩ := h.neighbour ((hedge k).trans he) hb
    obtain ⟨m, hm, ha⟩ := hg.exists_node hm₁
    have hparts := ha
    injection hparts with _ _ _ hflow hedges
    exact ⟨m, hm, hedges ▸ hk, hflow ▸ hle, by rw [hnode, ha, hflow, hedges]⟩
  case elsewhere =>
    intro b hb hother
    rw [h.elsewhere hb fun k e he => hother k e ((hedge k).symm.trans he), hg.node]

/-- What a node shares with a neighbour is the one edge between them. -/
theorem Sound.filter_edges_neighbour (h : g.Sound) (hn : g.node? a = some n)
    (hm : g.node? b = some m) (hne : b ≠ a) {k : EdgeKey} {e : Edge} (he : g.edge? k = some e)
    (hb : e.Touches b) (ha : e.Touches a) :
    (m.edges.filter fun j => j ∉ n.edges) = m.edges.filter (· != k) := by
  refine List.filter_congr fun j hj => ?_
  have hiff : j ∈ n.edges ↔ j = k := by
    obtain ⟨d, hd, hdb⟩ := (h.mem_edges hm j).1 hj
    rw [h.mem_iff_touches hd hn]
    constructor
    · intro hda
      exact h.unique hd he (Edge.other_of_touches hne hda hdb).2 (Edge.other_of_touches hne ha hb).2
    · rintro rfl
      obtain rfl := Option.some.inj (he.symm.trans hd)
      exact ha
  rw [decide_not, decide_eq_decide.2 hiff]
  rfl

/-- **Unlinking a node** releases its edges and units. -/
theorem Sound.released_unlink (h : g.Sound) (hn : g.node? a = some n) :
    g.Released a n (g.unlink a).2 := by
  rw [unlink_eq h hn]
  have hnode : ∀ {b m}, g.node? b = some m →
      (n.edges.foldl Graph.dropEdge g).node? b = some { m with
        edges := m.edges.filter fun j => j ∉ n.edges
        flow := ((m.edges.filter fun j => j ∉ n.edges).map g.carried).sum } :=
    fun hm => h.node?_foldl_dropEdge n.edges hm
  constructor
  case units => exact h.balance hn
  case node =>
    have hnone : (n.edges.filter fun j => j ∉ n.edges) = [] := by simp
    rw [hnode hn, hnone]
    rfl
  case edge => exact edge?_foldl_dropEdge g n.edges
  case neighbour =>
    intro k e b he hother
    obtain ⟨ha, hb⟩ := Edge.touches_of_other hother
    obtain ⟨m, hm⟩ := h.exists_node he hb
    have hk := (h.mem_iff_touches he hm).2 hb
    have hne : b ≠ a := by
      obtain ⟨c, hc, hac, -⟩ := Edge.exists_other (h.source_ne_sink he) ha
      rw [hother] at hc
      cases hc
      exact hac.symm
    have hrest := sum_filter_ne (h.nodup hm) hk g.carried
    rw [← h.balance hm, carried_eq he] at hrest
    refine ⟨m, hm, hk, by omega, ?_⟩
    rw [hnode hm, h.filter_edges_neighbour hn hm hne he hb ha, (h.nodup hm).erase_eq_filter,
      ← hrest, Nat.add_sub_cancel_left]
    rfl
  case elsewhere =>
    intro b hne hother
    cases hm : g.node? b with
    | none =>
      have hidle := (SamePlaces.foldl_dropEdge g n.edges).node b
      rw [hm, Option.map_none, Option.map_eq_none_iff] at hidle
      rw [hidle]
    | some m =>
      have hkept : (m.edges.filter fun j => j ∉ n.edges) = m.edges := by
        refine List.filter_eq_self.2 fun j hj => ?_
        obtain ⟨e, he, hb⟩ := (h.mem_edges hm j).1 hj
        rw [decide_eq_true_iff, h.mem_iff_touches he hn]
        exact fun ha => hother j e he (Edge.other_of_touches hne ha hb).1
      rw [hnode hm, hkept, ← h.balance hm]

/-- The units of other nodes of the same role stay. -/
theorem Released.units_eq (h : g.Released a n g') (hs : g.Sound) {isSink : Bool}
    {l : List NodeKey} (hl : g.AllOn isSink l) (ha : a ∈ l) (hb : b ∈ l) (hne : b ≠ a) :
    g'.units b = g.units b := by
  have hother : ∀ k e, g.edge? k = some e → e.other a ≠ some b := by
    intro k e he hother
    obtain ⟨hta, htb⟩ := Edge.touches_of_other hother
    obtain ⟨n, hn, hrole⟩ := hl.exists_node ha
    obtain ⟨m, hm, hrole'⟩ := hl.exists_node hb
    exact hne (by
      rw [← (hs.touches_iff he hn).1 hta, ← (hs.touches_iff he hm).1 htb, hrole, hrole'])
  exact units_congr (h.elsewhere hne hother)

end Graph

namespace Collection

variable {c c' : Collection β} {g g' : Graph α} {l xs ys : List NodeKey} {k : NodeKey} {n : Node α}

/-- A member has left from between `xs` and `ys`, which have closed ranks; no other node has
    moved. -/
structure Parted (c : Collection β) (g : Graph α) (xs : List NodeKey) (k : NodeKey)
    (ys : List NodeKey) (c' : Collection β) (g' : Graph α) : Prop where
  before : c.members g = xs ++ k :: ys
  behind : c'.members g' = xs ++ ys
  places : Skipped xs k ys g g'
  collection : c' = { c with
    head := (xs ++ ys).head?, tail := (xs ++ ys).getLast?, size := (xs ++ ys).length
    cursor := if c.cursor = some k then ys.head? else c.cursor }

/-- **A member that leaves** releases its edges and units. -/
theorem Holds.released_remove (h : c.Holds g l) (hs : g.Sound) (hk : k ∈ l)
    (hn : g.node? k = some n) : ∃ xs ys c' g', c.remove g k = (.ok n.flow, c', g') ∧
      g.Released k n g' ∧ c.Parted g xs k ys c' g' := by
  rcases remove_spec hs h k with ⟨hk', -⟩ | ⟨xs, ys, m, g', rfl, hm, hskipped, hremove⟩
  · exact absurd hk hk'
  obtain rfl := Option.some.inj (hm.symm.trans hn)
  have hrest : Holds _ g' (xs ++ ys) := h.skip hskipped
  refine ⟨xs, ys, _, g', hremove, ?_, h.members_eq, hrest.members_eq, hskipped, rfl⟩
  -- the edges are removed after the links, which do not matter to them
  obtain ⟨g₁, hsame, ⟨⟨f, hf⟩, -⟩ | hunlink⟩ := c.remove_cases g k
  · rw [hremove] at hf
    cases hf
  · obtain ⟨n₁, hn₁, halone⟩ := hsame.symm.exists_node hm
    rw [hremove] at hunlink
    obtain rfl : g' = (g₁.unlink k).2 := hunlink
    exact ((hs.congr hsame).released_unlink hn₁).congr hsame halone.symm

/-- Among members of one role the units of the one that leaves are lost, and no others. -/
theorem Parted.flow_eq (h : c.Parted g xs k ys c' g') (hreleased : g.Released k n g')
    (hs : g.Sound) (hc : c.Holds g l) (hn : g.node? k = some n) (hrole : c.OneRole g) :
    c'.flow g' + n.flow = c.flow g ∧ ∀ b ∈ xs ++ ys, g'.units b = g.units b := by
  obtain ⟨isSink, hrole⟩ := hrole
  have hl : l = xs ++ k :: ys := hc.members_eq.symm.trans h.before
  have hc' : c'.Holds g' (xs ++ ys) := by
    rw [h.collection]
    exact (hl ▸ hc).skip h.places
  rw [h.before] at hrole
  obtain ⟨hk, -⟩ := List.nodup_cons.1 (List.nodup_middle.1 (hl ▸ hc.nodup))
  have hunits : ∀ b ∈ xs ++ ys, g'.units b = g.units b := by
    intro b hb
    refine hreleased.units_eq hs hrole (by simp) ?_ fun hbk => hk (hbk ▸ hb)
    exact List.perm_middle.mem_iff.2 (List.mem_cons_of_mem _ hb)
  refine ⟨?_, hunits⟩
  have hload : g'.load (xs ++ ys) = g.load (xs ++ ys) :=
    congrArg List.sum (List.map_congr_left hunits)
  rw [hc.flow_eq, hc'.flow_eq, hload, hl, ← Graph.units_eq hn]
  simp only [Graph.load, List.map_append, List.map_cons, List.sum_append, List.sum_cons]
  omega

end Collection

namespace Network

/-- **Removal frees just the flow of the node**: whatever was done to the graph and its
    collections before, a node that is unlinked, or leaves its collection, gives back the
    units that passed through it, and loses them with its edges; a neighbour loses the one
    edge to it and what that carried, and nothing else changes but, where it leaves, the
    links of its collection.  A collection of sources, or of sinks, carries as many units
    less as are given back, and each member that stays carries what it did. -/
theorem run_released (actions : List (Action α β)) {a : NodeKey} {n : Node α}
    (hn : (run actions).graph.node? a = some n) :
    (∃ g', (run actions).graph.unlink a = (.ok n.flow, g') ∧
      (run actions).graph.Released a n g' ∧ SamePlaces (run actions).graph g') ∧
    ∀ {i : CollectionId} {c : Collection β}, (run actions).collections[i]? = some c →
      a ∈ c.members (run actions).graph →
        ∃ xs ys c' g', c.remove (run actions).graph a = (.ok n.flow, c', g') ∧
          (run actions).graph.Released a n g' ∧
          c.Parted (run actions).graph xs a ys c' g' ∧
          (c.OneRole (run actions).graph →
            c'.flow g' + n.flow = c.flow (run actions).graph ∧
              ∀ b ∈ xs ++ ys, g'.units b = (run actions).graph.units b) := by
  have hs := run_sound actions
  refine ⟨⟨_, ?_, hs.released_unlink hn, .unlink hs a⟩, fun {i c} hc ha => ?_⟩
  · rw [Graph.unlink_eq hs hn]
  · obtain ⟨l, hl⟩ := (run_holds actions).exists_list hc
    have hholds := (run_holds actions).holds hc hl
    rw [hholds.members_eq] at ha
    obtain ⟨xs, ys, c', g', hremove, hreleased, hparted⟩ := hholds.released_remove hs ha hn
    exact ⟨xs, ys, c', g', hremove, hreleased, hparted,
      hparted.flow_eq hreleased hs hholds hn⟩

/-- A sink with two sources, one of which it takes a unit from, gives the unit back when it
    leaves. -/
theorem run_released_star :
    let actions := star ++ [.stream 0]
    ∃ n c xs ys c' g', (run actions).graph.node? 0 = some n ∧ n.edges = [0, 1] ∧
      (run actions).collections[0]? = some c ∧ 0 ∈ c.members (run actions).graph ∧
      c.OneRole (run actions).graph ∧ c.flow (run actions).graph = 1 ∧
      c.remove (run actions).graph 0 = (.ok 1, c', g') ∧ (run actions).graph.Released 0 n g' ∧
      c.Parted (run actions).graph xs 0 ys c' g' ∧ c'.flow g' = 0 := by
  intro actions
  have hn : (run actions).graph.node? 0 = some ⟨(), 2, true, 1, [0, 1], some 0, none, none⟩ := by
    decide
  have hc : (run actions).collections[0]? = some ⟨(), 0, 2, some 0, some 0, 1, some 0⟩ := by decide
  have hmember : 0 ∈ Collection.members ⟨(), 0, 2, some 0, some 0, 1, some 0⟩
      (run actions).graph := by decide
  have hrole : Collection.OneRole ⟨(), 0, 2, some 0, some 0, 1, some 0⟩ (run actions).graph :=
    ⟨true, by decide⟩
  have hflow : Collection.flow ⟨(), 0, 2, some 0, some 0, 1, some 0⟩ (run actions).graph = 1 := by
    decide
  obtain ⟨-, hremoved⟩ := run_released actions hn
  obtain ⟨xs, ys, c', g', hremove, hreleased, hparted, hone⟩ := hremoved hc hmember
  have hleft := (hone hrole).1
  rw [hflow] at hleft
  exact ⟨_, _, xs, ys, c', g', hn, rfl, hc, hmember, hrole, hflow, hremove, hreleased, hparted,
    Nat.succ.inj hleft⟩

end Network
end Matchbook.Flow
