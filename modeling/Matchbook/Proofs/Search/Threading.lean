/-
  The edges of a root item in the graph in which an order is filled.

  * `Threaded`: there is an edge for each item of a candidate that the chain accepts for
    the root item, in the order in which the items were placed;
  * `linkCandidates_threaded`: placing and linking candidates one after the other threads
    their items in this order;
  * `Threaded.unitAlong`: a unit that passes changes nothing of it.
-/
import Matchbook.Proofs.Search.Linking
import Matchbook.Proofs.Search.Scan

namespace Matchbook.Flow

/-! ## The edges of a node -/

theorem Graph.edgesOf_addEdge {α : Type} {g : Graph α} {a b k : NodeKey} (hab : a ≠ b) {n : Node α}
    (hn : g.node? k = some n) : (g.addEdge a b).edgesOf k =
      if k = a ∨ k = b then g.edgesOf k ++ [g.edges.nextKey] else g.edgesOf k := by
  rw [edgesOf, addEdge_eq, node?_onEnds _ _ hab, hn, edgesOf_eq hn]
  by_cases hk : k = a ∨ k = b
  · rw [if_pos hk, if_pos hk]
    rfl
  · rw [if_neg hk, if_neg hk]

theorem Graph.edgesOf_unitAlong {α : Type} (g : Graph α) (j : EdgeKey) {e : Edge}
    (hne : e.source ≠ e.sink) (k : NodeKey) : (g.unitAlong j e).edgesOf k = g.edgesOf k := by
  rw [edgesOf, unitAlong, node?_onEnds _ _ hne, edgesOf]
  by_cases hk : k = e.source ∨ k = e.sink
  · rw [if_pos hk]
    cases g.node? k <;> rfl
  · rw [if_neg hk]

theorem SameFlow.edgesOf {α : Type} {g g' : Graph α} (h : SameFlow g g') (k : NodeKey) :
    g'.edgesOf k = g.edgesOf k := by
  have halone : ∀ g : Graph α, g.edgesOf k = ((g.node? k).map Node.alone).elim [] Node.edges := by
    intro g
    rw [Graph.edgesOf]
    cases g.node? k <;> rfl
  rw [halone, h.node, ← halone]

/-- New items have no edges. -/
theorem Graph.edgesOf_addItems (g : Graph OrderItem) (isSink : Bool) (items : List OrderItem)
    (k : NodeKey) : (g.addItems isSink items).edgesOf k = g.edgesOf k := by
  rw [edgesOf, edgesOf, node?, node?, addItems, List.getElem?_append]
  by_cases hlt : k < g.nodes.length
  · rw [if_pos hlt]
  · rw [if_neg hlt, List.getElem?_eq_none (Nat.le_of_not_lt hlt), List.getElem?_map]
    cases items[k - g.nodes.length]? <;> rfl

/-- No node is a sink and a source. -/
theorem Graph.Bears.ne {g : Graph OrderItem} {a b : NodeKey} {i j : OrderItem}
    (ha : g.Bears true a i) (hb : g.Bears false b j) : a ≠ b := by
  rintro rfl
  obtain ⟨m, hm, -, -, hsink⟩ := ha
  obtain ⟨n, hn, -, -, hsource⟩ := hb
  obtain rfl := Option.some.inj (hm.symm.trans hn)
  exact Bool.false_ne_true (hsource.symm.trans hsink)

theorem Placed.edgesOf {w : Network OrderItem Order} {ls : List (List NodeKey)} {o : LoadedOrder}
    {isSink : Bool} {c : Collection Order} {g : Graph OrderItem} (h : Placed w ls o isSink c g)
    (k : NodeKey) : g.edgesOf k = w.graph.edgesOf k := by
  rw [h.sameFlow.edgesOf, Graph.edgesOf_addItems]

end Matchbook.Flow

namespace Matchbook.Search

open Matchbook.Flow

variable {chain : Chain} {g g' : Graph OrderItem} {roots sources : List (NodeKey × OrderItem)}

/-! ## Linking a candidate -/

/-- The edge leads from the node of the item to the sink. -/
def EdgeFrom (g : Graph OrderItem) (sink : NodeKey) (k : EdgeKey) (s : NodeKey × OrderItem) :
    Prop :=
  ∃ e, g.edge? k = some e ∧ e.source = s.1 ∧ e.sink = sink

theorem EdgeFrom.grows {b : NodeKey} {k : EdgeKey} {s : NodeKey × OrderItem}
    (h : EdgeFrom g b k s) (hg : Grows g g') : EdgeFrom g' b k s := by
  obtain ⟨e, he, hsource, hsink⟩ := h
  obtain ⟨e', he', hs, ht⟩ := hg.edge he
  exact ⟨e', he', hs.trans hsource, ht.trans hsink⟩

/-- Linking gives a sink more edges behind those that it has: one for each pair that the
    chain accepts, in order. -/
theorem linkAccepted_edges {l : List NodeKey} :
    ∀ {pairs : List ((NodeKey × OrderItem) × (NodeKey × OrderItem))} {g : Graph OrderItem},
      g.Sound → g.Still → Linkable l g pairs → linkAccepted chain pairs g = .ok g' →
        Grows g g' ∧ ∀ {b i}, g.Bears true b i → ∃ ks, g'.edgesOf b = g.edgesOf b ++ ks ∧
          List.Forall₂ (EdgeFrom g' b) ks
            ((pairs.filter fun p => p.2.1 == b && chain.admits p.2.2 p.1.2).map Prod.fst)
  | [], g, _, _, _, hlink => by
    obtain rfl := Except.ok.inj hlink
    exact ⟨.refl g, fun _ => ⟨[], (List.append_nil _).symm, .nil⟩⟩
  | ((ck, ci), (rk, ri)) :: pairs, g, hs, hst, h, hlink => by
    have hmem : ((ck, ci), (rk, ri)) ∈ ((ck, ci), (rk, ri)) :: pairs := List.mem_cons_self
    obtain ⟨accepted, haccepts, hlink⟩ := bind_eq_ok.1 hlink
    rw [compute, mapError_eq_ok] at haccepts
    have hadmits : chain.admits ri ci = accepted := by rw [Chain.admits, haccepts]
    cases accepted with
    | false =>
      obtain ⟨hgrows, hedges⟩ := linkAccepted_edges hs hst h.tail hlink
      refine ⟨hgrows, fun hb => ?_⟩
      rw [List.filter_cons_of_neg (by simp [hadmits])]
      exact hedges hb
    | true =>
      obtain ⟨m, hm, -, -, hsink⟩ := (h.root _ hmem).1
      obtain ⟨n, hn, -, -, hsource⟩ := h.candidate _ hmem
      obtain ⟨hadd, hs'⟩ := hs.link_eq hm hsink hn hsource (h.apart _ hmem)
      simp only [if_true, hadd, operate, ok_bind] at hlink
      obtain ⟨hgrows, hedges⟩ := linkAccepted_edges hs' (hst.addEdge ck rk) h.addEdge hlink
      have hgrows' : Grows g (g.addEdge ck rk) := .addEdge g ck rk
      refine ⟨hgrows'.trans hgrows, fun {b i} hb => ?_⟩
      obtain ⟨ks, hks, hfrom⟩ := hedges (hgrows'.bears hb)
      have hbc : b ≠ ck := hb.ne (h.candidate _ hmem)
      have hrc : rk ≠ ck := (h.root _ hmem).1.ne (h.candidate _ hmem)
      obtain ⟨t, ht, -⟩ := hb
      rw [Graph.edgesOf_addEdge hrc.symm ht] at hks
      -- the edge is one of the sink's exactly if it leads to it
      by_cases hbr : b = rk
      · rw [if_pos (Or.inr hbr), List.append_assoc] at hks
        refine ⟨_, hks, ?_⟩
        rw [List.filter_cons_of_pos (by simp [hadmits, hbr]), List.map_cons]
        refine .cons (EdgeFrom.grows ⟨⟨ck, rk, 0⟩, ?_, rfl, hbr.symm⟩ hgrows) hfrom
        rw [Graph.edge?_addEdge, if_pos rfl]
      · rw [if_neg (by simp [hbc, hbr])] at hks
        refine ⟨ks, hks, ?_⟩
        rw [List.filter_cons_of_neg (by simp [Ne.symm hbr])]
        exact hfrom

theorem filter_key_eq {γ : Type} {r : NodeKey × γ} : ∀ {roots : List (NodeKey × γ)},
    (roots.map Prod.fst).Nodup → r ∈ roots → roots.filter (fun r' => r'.1 == r.1) = [r]
  | r' :: roots, hnodup, hr => by
    obtain ⟨hnew, hnodup⟩ := List.nodup_cons.1 hnodup
    rcases List.mem_cons.1 hr with rfl | hr
    · rw [List.filter_cons_of_pos (by simp), List.filter_eq_nil_iff.2]
      intro r' hr' heq
      exact hnew (eq_of_beq heq ▸ List.mem_map_of_mem hr')
    · have hne : r'.1 ≠ r.1 := fun heq => hnew (heq ▸ List.mem_map_of_mem hr)
      rw [List.filter_cons_of_neg (by simpa using hne), filter_key_eq hnodup hr]

/-- Of the pairs of a candidate's items with the root's, one root item gets those of the
    items that the chain accepts for it. -/
theorem filter_nodePairs (hnodup : (roots.map Prod.fst).Nodup) {r : NodeKey × OrderItem}
    (hr : r ∈ roots) (items : List (NodeKey × OrderItem)) :
    ((nodePairs items roots).filter fun p =>
        p.2.1 == r.1 && chain.admits p.2.2 p.1.2).map Prod.fst =
      items.filter fun s => chain.admits r.2 s.2 := by
  induction items with
  | nil => rfl
  | cons s items ih =>
    have hone : (roots.filter fun r' => r'.1 == r.1 && chain.admits r'.2 s.2) =
        [r].filter fun r' => chain.admits r'.2 s.2 := by
      rw [← filter_key_eq hnodup hr, List.filter_filter]
      exact List.filter_congr fun _ _ => Bool.and_comm _ _
    have hfirst : ((roots.map fun r' => (s, r')).filter fun p =>
        p.2.1 == r.1 && chain.admits p.2.2 p.1.2).map Prod.fst =
          [s].filter fun s => chain.admits r.2 s.2 := by
      rw [List.filter_map, List.map_map]
      show (roots.filter fun r' => r'.1 == r.1 && chain.admits r'.2 s.2).map (fun _ => s) = _
      rw [hone]
      cases hadmits : chain.admits r.2 s.2 <;> simp [hadmits]
    rw [nodePairs, List.flatMap_cons, List.filter_append, List.map_append, hfirst, ← nodePairs, ih,
      ← List.filter_append, List.singleton_append]

/-! ## Linking all candidates -/

/-- The edges of a root item come from the sources with items that the chain accepts for
    it, in the order of the sources. -/
structure Threaded (chain : Chain) (roots sources : List (NodeKey × OrderItem))
    (g : Graph OrderItem) : Prop where
  root : ∀ r ∈ roots, g.Bears true r.1 r.2
  source : ∀ s ∈ sources, g.Bears false s.1 s.2
  nodup : (sources.map Prod.fst).Nodup
  edges : ∀ r ∈ roots, List.Forall₂ (EdgeFrom g r.1) (g.edgesOf r.1)
    (sources.filter fun s => chain.admits r.2 s.2)

/-- At first there is no source. -/
theorem Threaded.init {root : LoadedOrder} {c : Collection Order}
    (hp : Placed .empty [] root true c g) : Threaded chain (c.itemNodes g) [] g where
  root r hr := hp.bears_of_mem hr
  source := List.forall_mem_nil _
  nodup := .nil
  edges r _ := by
    rw [hp.edgesOf]
    exact .nil

/-- A unit that passes changes neither items nor edges. -/
theorem Threaded.unitAlong (h : Threaded chain roots sources g) (hs : g.Sound) {k : EdgeKey}
    {e : Edge} (he : g.edge? k = some e) : Threaded chain roots sources (g.unitAlong k e) where
  root r hr := (Grows.unitAlong g k e).bears (h.root r hr)
  source s hs := (Grows.unitAlong g k e).bears (h.source s hs)
  nodup := h.nodup
  edges r hr := by
    rw [g.edgesOf_unitAlong k (hs.source_ne_sink he)]
    exact (h.edges r hr).imp fun _ _ hfrom => hfrom.grows (.unitAlong g k e)

section Linking

variable {w : Network OrderItem Order} {ls : List (List NodeKey)} {o : LoadedOrder}
  {c : Collection Order}

theorem Threaded.linkable (h : Threaded chain roots sources w.graph) (hp : Placed w ls o false c g)
    (hs : w.graph.Sound) (hnodup : (roots.map Prod.fst).Nodup) :
    Linkable (roots.map Prod.fst) g (nodePairs (c.itemNodes g) roots) :=
  linkable_nodePairs hp hs (fun r hr => ⟨h.root r hr, List.mem_map_of_mem hr⟩) hnodup

/-- The items of an order that is placed and linked come behind those that are there. -/
theorem Threaded.link (h : Threaded chain roots sources w.graph) (hp : Placed w ls o false c g)
    (hs : w.graph.Sound) (hst : w.graph.Still) (hnodup : (roots.map Prod.fst).Nodup)
    (hlink : linkAccepted chain (nodePairs (c.itemNodes g) roots) g = .ok g') :
    Threaded chain roots (sources ++ c.itemNodes g) g' := by
  obtain ⟨hgrows, hedges⟩ :=
    linkAccepted_edges (hp.sound hs) (hp.still hst) (h.linkable hp hs hnodup) hlink
  have hgrows' : Grows w.graph g' := hp.grows.trans hgrows
  constructor
  case root => exact fun r hr => hgrows'.bears (h.root r hr)
  case source =>
    intro s hs
    rcases List.mem_append.1 hs with hs | hs
    · exact hgrows'.bears (h.source s hs)
    · exact hgrows.bears (hp.bears_of_mem hs)
  case nodup =>
    rw [List.map_append, List.nodup_append]
    refine ⟨h.nodup, hp.itemNodes_keys ▸ List.nodup_range', fun k hk k' hk' heq => ?_⟩
    -- a source that was there has another node than one that is new
    obtain ⟨s, hs, rfl⟩ := List.mem_map.1 hk
    obtain ⟨s', hs', rfl⟩ := List.mem_map.1 hk'
    obtain ⟨n, hn, -⟩ := h.source s hs
    rw [heq, hp.node?_of_mem hs'] at hn
    cases hn
  case edges =>
    intro r hr
    obtain ⟨ks, hks, hfrom⟩ := hedges (hp.grows.bears (h.root r hr))
    rw [filter_nodePairs hnodup hr] at hfrom
    rw [hks, hp.edgesOf, List.filter_append]
    exact List.rel_append ((h.edges r hr).imp fun _ _ hfrom => hfrom.grows hgrows') hfrom

/-- **Threading**: the sources are the items of the candidates, one candidate after the
    other. -/
theorem linkCandidates_threaded (hnodup : (roots.map Prod.fst).Nodup) :
    ∀ (candidates : List LoadedOrder) {sources : List (NodeKey × OrderItem)}
      {w : Network OrderItem Order} {ls : List (List NodeKey)}, w.Lists ls → w.graph.Sound →
        w.graph.Still → Threaded chain roots sources w.graph →
          linkCandidates chain roots candidates w.graph = .ok g' →
            ∃ more, more.map Prod.snd = candidates.flatMap LoadedOrder.items ∧
              Threaded chain roots (sources ++ more) g'
  | [], sources, w, ls, _, _, _, h, hlink => by
    obtain rfl := Except.ok.inj hlink
    exact ⟨[], rfl, by rwa [List.append_nil]⟩
  | o :: candidates, sources, w, ls, hlists, hs, hst, h, hlink => by
    obtain ⟨c, g, hplace, hp⟩ := place_spec hlists o false
    simp only [linkCandidates, hplace, operate, ok_bind] at hlink
    obtain ⟨g₁, hlink₁, hlink⟩ := bind_eq_ok.1 hlink
    have hthreaded := h.link hp hs hst hnodup hlink₁
    have hlinked : Gives (Linked chain (nodePairs (c.itemNodes g) roots) g)
        (linkAccepted chain (nodePairs (c.itemNodes g) roots) g) :=
      (linkAccepted_spec (E := fun _ => True) (hp.sound hs) (hp.still hst)
        (h.linkable hp hs hnodup) fun _ _ _ _ => trivial).gives
    rw [hlink₁] at hlinked
    obtain ⟨more, hmore, hthreaded⟩ := linkCandidates_threaded hnodup candidates
      (w := ⟨g₁, w.collections ++ [c]⟩) (hp.lists.samePlaces hlinked.places) hlinked.sound
      hlinked.still hthreaded hlink
    refine ⟨c.itemNodes g ++ more, ?_, by rwa [← List.append_assoc]⟩
    rw [List.map_append, hp.itemNodes_items, hmore, List.flatMap_cons]

end Linking
end Matchbook.Search
