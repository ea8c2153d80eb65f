/-
  Reading the units off the graph in which an order is filled.

  * `flowedPairs_spec`: each root item is read with the items whose units its edges
    carry (`Fed`);
  * `Wired.fed`: these are items of candidates that the chain accepts, each for one token
    if the candidates are bound (`Stocked.source_of_delivers`);
  * `Stocked.nodup_orderId`: no candidate order gives more than one unit, so that no
    order is read twice.
-/
import Matchbook.Proofs.Flow.Role
import Matchbook.Proofs.Related
import Matchbook.Proofs.Search.Linking

namespace Matchbook.Flow.Graph.Sound

variable {α : Type} {g : Graph α}

/-- Of the edges of a node for one unit, one alone carries it. -/
theorem edge_eq_of_capacity (h : g.Sound) {k k' : EdgeKey} {e e' : Edge} (he : g.edge? k = some e)
    (he' : g.edge? k' = some e') (hsource : e.source = e'.source) {n : Node α}
    (hn : g.node? e.source = some n) (hone : n.capacity ≤ 1) (hpos : 0 < e.flow)
    (hpos' : 0 < e'.flow) : k = k' := by
  have hsum : (n.edges.map g.carried).sum ≤ 1 :=
    h.balance hn ▸ Nat.le_trans (h.flow_le_capacity hn) hone
  obtain ⟨j, hj⟩ := List.getElem?_of_mem ((h.mem_edges hn k).2 ⟨e, he, Or.inl rfl⟩)
  obtain ⟨j', hj'⟩ := List.getElem?_of_mem ((h.mem_edges hn k').2 ⟨e', he', Or.inl hsource⟩)
  have hindex : j = j' := eq_of_sum_le_one hsum (by simp [hj, carried_eq he])
    (by simp [hj', carried_eq he']) hpos hpos'
  rw [hindex, hj'] at hj
  exact (Option.some.inj hj).symm

end Matchbook.Flow.Graph.Sound

namespace Matchbook.Search

open Matchbook.Flow

/-! ## Reading the pairs -/

variable {chain : Chain} {roots : List (NodeKey × OrderItem)} {placed : List LoadedOrder}
  {g : Graph OrderItem}

/-- The edge carries a unit of the item. -/
def Delivers (g : Graph OrderItem) (k : EdgeKey) (i : OrderItem) : Prop :=
  ∃ e n, g.edge? k = some e ∧ 0 < e.flow ∧ g.node? e.source = some n ∧ n.data = i

/-- The root item is read with the items whose units its edges carry. -/
structure Fed (g : Graph OrderItem) (r : NodeKey × OrderItem) (f : OrderItem × List OrderItem) :
    Prop where
  item : f.1 = r.2
  opposing : List.Forall₂ (Delivers g) (g.carrying r.1) f.2

theorem flowedSources_spec (h : g.Sound) : ∀ {ks : List EdgeKey},
    (∀ k ∈ ks, ∃ e, g.edge? k = some e) → ∃ items, flowedSources g ks = .ok items ∧
      List.Forall₂ (Delivers g) (ks.filter fun k => decide (0 < g.carried k)) items
  | [], _ => ⟨[], rfl, .nil⟩
  | k :: ks, hks => by
    obtain ⟨e, he⟩ := hks k List.mem_cons_self
    obtain ⟨items, hitems, hdelivers⟩ := flowedSources_spec h fun j hj =>
      hks j (List.mem_cons_of_mem _ hj)
    rw [flowedSources, he, List.filter_cons, Graph.carried_eq he]
    dsimp only
    by_cases hflow : e.flow = 0
    · rw [if_pos hflow, if_neg (by simp [hflow])]
      exact ⟨items, hitems, hdelivers⟩
    · obtain ⟨⟨n, hn, -⟩, -⟩ := h.ends he
      have hpos := Nat.pos_of_ne_zero hflow
      rw [if_neg hflow, if_pos (decide_eq_true hpos), hn, hitems]
      exact ⟨n.data :: items, rfl, .cons ⟨e, n, he, hpos, hn, rfl⟩ hdelivers⟩

/-- **Reading**: the pairs can be read off every sound graph. -/
theorem flowedPairs_spec (h : g.Sound) : ∀ roots : List (NodeKey × OrderItem),
    ∃ filling, flowedPairs g roots = .ok filling ∧ List.Forall₂ (Fed g) roots filling
  | [] => ⟨[], rfl, .nil⟩
  | (k, root) :: roots => by
    obtain ⟨filling, hfilling, hfed⟩ := flowedPairs_spec h roots
    have hedges : ∀ j ∈ g.edgesOf k, ∃ e, g.edge? j = some e := by
      intro j hj
      obtain ⟨e, he, -⟩ := h.mem_edgesOf.1 hj
      exact ⟨e, he⟩
    obtain ⟨items, hitems, hdelivers⟩ := flowedSources_spec h hedges
    refine ⟨(root, items) :: filling, ?_, .cons ⟨rfl, hdelivers⟩ hfed⟩
    unfold flowedPairs at hfilling ⊢
    rw [List.mapM_cons]
    dsimp only
    rw [hitems, hfilling]
    rfl

/-! ## What is delivered -/

section Delivery

variable {k k' : EdgeKey} {i i' : OrderItem}

/-- What an edge to a root item delivers is an item of a placed candidate that the chain
    accepts for it. -/
theorem Wired.delivers (h : Wired chain roots placed g) (hs : g.Sound)
    (hnodup : (roots.map Prod.fst).Nodup) {r : NodeKey × OrderItem} (hr : r ∈ roots)
    (hk : k ∈ g.carrying r.1) (hi : Delivers g k i) :
    (∃ c ∈ placed, i ∈ c.items) ∧ chain.accepts r.2 i = .ok true := by
  obtain ⟨e, n, he, -, hn, rfl⟩ := hi
  obtain ⟨e', he', -, ht⟩ := hs.mem_carrying.1 hk
  obtain rfl := Option.some.inj (he.symm.trans he')
  obtain ⟨m, hm, -, -, hsink⟩ := h.root r hr
  obtain ⟨r', i, hr', hi, haccepts⟩ := h.edge he
  rw [hs.sink_eq he hm hsink ht] at hr'
  have heq : r = (r.1, r') := List.inj_on_of_nodup_map hnodup hr hr' rfl
  obtain ⟨c, hc, hmem⟩ := h.source hi
  obtain ⟨n', hn', rfl, -⟩ := hi
  obtain rfl := Option.some.inj (hn.symm.trans hn')
  rw [heq]
  exact ⟨⟨c, hc, hmem⟩, haccepts⟩

/-- A root item is read with items of placed candidates that the chain accepts for it. -/
theorem Wired.fed (h : Wired chain roots placed g) (hs : g.Sound)
    (hnodup : (roots.map Prod.fst).Nodup) {filling : List (OrderItem × List OrderItem)}
    (hfed : List.Forall₂ (Fed g) roots filling) {f : OrderItem × List OrderItem}
    (hf : f ∈ filling) :
    (∃ r ∈ roots, r.2 = f.1) ∧
      ∀ i ∈ f.2, (∃ c ∈ placed, i ∈ c.items) ∧ chain.accepts f.1 i = .ok true := by
  obtain ⟨r, hr, hrf⟩ := forall₂_mem_right hfed hf
  refine ⟨⟨r, hr, hrf.item.symm⟩, fun i hi => ?_⟩
  obtain ⟨k, hk, hdelivers⟩ := forall₂_mem_right hrf.opposing hi
  rw [hrf.item]
  exact h.delivers hs hnodup hr hk hdelivers

/-- No edge leaves a root item. -/
theorem Wired.noExit (h : Wired chain roots placed g) (hs : g.Sound) :
    g.NoExit (roots.map Prod.fst) := by
  intro k e he hmem
  obtain ⟨r, hr, hsource⟩ := List.mem_map.1 hmem
  obtain ⟨n, hn, -, -, hsink⟩ := h.root r hr
  exact hs.source_ne_sink he (hsource.symm.trans (hs.sink_eq he hn hsink (Or.inl hsource)).symm)

variable (h : Stocked chain roots placed g) (hs : g.Sound)
  (hplaced : ∀ c ∈ placed, c.Bound ∧ c.order.numItems = 1)
include h hs hplaced

/-- An item that is delivered stands for one token, and so does its node. -/
theorem Stocked.source_of_delivers (hi : Delivers g k i) : i.quantity.toNat = 1 ∧
    ∃ e n, g.edge? k = some e ∧ 0 < e.flow ∧ g.node? e.source = some n ∧ n.capacity ≤ 1 ∧
      g.Bears false e.source i := by
  obtain ⟨e, n, he, hpos, hn, rfl⟩ := hi
  obtain ⟨r, i, -, hi, -⟩ := h.edge he
  obtain ⟨c, hc, hmem⟩ := h.source hi
  have hle := (hplaced c hc).1.quantity_le_one (hplaced c hc).2 hmem
  obtain ⟨m, hm, rfl, hcap, hsource⟩ := hi
  obtain rfl := Option.some.inj (hn.symm.trans hm)
  have hcarried : g.carried k ≤ n.flow := by
    rw [hs.balance hn]
    exact List.le_sum_of_mem (List.mem_map_of_mem ((hs.mem_edges hn k).2 ⟨e, he, Or.inl rfl⟩))
  rw [Graph.carried_eq he] at hcarried
  have hflow := hs.flow_le_capacity hn
  exact ⟨by omega, e, n, he, hpos, hn, by omega, n, hn, rfl, hcap, hsource⟩

/-- As many items are delivered as tokens. -/
theorem Stocked.sum_quantity {ks : List EdgeKey} {items : List OrderItem}
    (hitems : List.Forall₂ (Delivers g) ks items) :
    (items.map (·.quantity.toNat)).sum = items.length := by
  have hone : ∀ i ∈ items, i.quantity.toNat = 1 := by
    intro i hi
    obtain ⟨k, -, hdelivers⟩ := forall₂_mem_right hitems hi
    exact (h.source_of_delivers hs hplaced hdelivers).1
  rw [List.map_congr_left (g := fun _ => 1) hone]
  simp

/-- Two edges that deliver items of one order are one edge. -/
theorem Stocked.edge_eq (hi : Delivers g k i) (hi' : Delivers g k' i')
    (hid : i.orderId = i'.orderId) : k = k' := by
  obtain ⟨hq, e, n, he, hpos, hn, hone, hb⟩ := h.source_of_delivers hs hplaced hi
  obtain ⟨hq', e', n', he', hpos', -, -, hb'⟩ := h.source_of_delivers hs hplaced hi'
  have hsource := h.alone hb hb' hid (by omega) (by omega)
  exact hs.edge_eq_of_capacity he he' hsource hn hone hpos hpos'

end Delivery

/-! ## No order twice -/

theorem Stocked.nodup_carrying (h : Stocked chain roots placed g) (hs : g.Sound)
    (hnodup : (roots.map Prod.fst).Nodup) : (roots.flatMap fun r => g.carrying r.1).Nodup := by
  rw [← List.flatMap_map Prod.fst g.carrying]
  exact hs.nodup_flatMap_carrying hnodup (.of_bears h.root)

/-- **No order twice**: the items that are read belong to different orders. -/
theorem Stocked.nodup_orderId (h : Stocked chain roots placed g) (hs : g.Sound)
    (hnodup : (roots.map Prod.fst).Nodup)
    (hplaced : ∀ c ∈ placed, c.Bound ∧ c.order.numItems = 1)
    {filling : List (OrderItem × List OrderItem)} (hfed : List.Forall₂ (Fed g) roots filling) :
    ((filling.flatMap Prod.snd).map (·.orderId)).Nodup := by
  have hdelivers : List.Forall₂ (Delivers g) (roots.flatMap fun r => g.carrying r.1)
      (filling.flatMap Prod.snd) :=
    List.rel_flatMap hfed fun _ _ hf => hf.opposing
  exact nodup_map_of_forall₂ (fun hi hi' => h.edge_eq hs hplaced hi hi') hdelivers
    (h.nodup_carrying hs hnodup)

end Matchbook.Search
