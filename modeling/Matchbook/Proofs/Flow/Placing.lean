/-
  Orders in a graph.

  * `Graph.addItems` are the nodes of the items of an order, and `Graph.Bears` says
    that a node stands for an item;
  * `place_spec`: placing an order never fails; it adds these nodes and a collection
    of them (`Placed`) whose stream has not begun, so the graph grows and stays sound;
  * `Placed.itemNodes_eq`: the nodes of the collection are those of the items, in
    order.
-/
import Matchbook.Flow.OrderItems
import Matchbook.Proofs.Flow.Growth
import Matchbook.Proofs.Flow.Roster

namespace Matchbook.Flow

/-! ## Nodes for items -/

namespace Graph

/-- The graph with a node for each item. -/
def addItems (g : Graph OrderItem) (isSink : Bool) (items : List OrderItem) : Graph OrderItem :=
  { g with nodes := g.nodes ++ items.map fun i => Node.new i i.quantity.toNat isSink }

theorem addItems_cons (g : Graph OrderItem) (isSink : Bool) (i : OrderItem) (is : List OrderItem) :
    g.addItems isSink (i :: is) = (g.addNode i i.quantity.toNat isSink).addItems isSink is := by
  simp [addItems, addNode]

/-- The node stands for the item, as a sink or as a source. -/
def Bears (g : Graph OrderItem) (isSink : Bool) (k : NodeKey) (i : OrderItem) : Prop :=
  ∃ n, g.node? k = some n ∧ n.data = i ∧ n.capacity = i.quantity.toNat ∧ n.isSink = isSink

theorem node?_addItems_old {g : Graph OrderItem} {k : NodeKey} {n : Node OrderItem}
    (h : g.node? k = some n) (isSink : Bool) (items : List OrderItem) :
    (g.addItems isSink items).node? k = some n := by
  rw [node?, addItems, List.getElem?_append_left (node?_eq_some_lt h)]
  exact h

theorem node?_addItems_new (g : Graph OrderItem) (isSink : Bool) {items : List OrderItem} {j : Nat}
    {i : OrderItem} (h : items[j]? = some i) :
    (g.addItems isSink items).node? (g.nodes.length + j) =
      some (Node.new i i.quantity.toNat isSink) := by
  rw [node?, addItems, List.getElem?_append_right (Nat.le_add_right _ _), Nat.add_sub_cancel_left,
    List.getElem?_map, h]
  rfl

theorem bears_addItems (g : Graph OrderItem) (isSink : Bool) {items : List OrderItem} {j : Nat}
    {i : OrderItem} (h : items[j]? = some i) :
    (g.addItems isSink items).Bears isSink (g.nodes.length + j) i :=
  ⟨_, node?_addItems_new g isSink h, rfl, rfl, rfl⟩

theorem Sound.addItems {g : Graph OrderItem} (h : g.Sound) (isSink : Bool)
    (items : List OrderItem) : (g.addItems isSink items).Sound := by
  induction items generalizing g with
  | nil => simpa [Graph.addItems] using h
  | cons i is ih =>
    rw [addItems_cons]
    exact ih (h.addNode i i.quantity.toNat isSink)

end Graph

theorem Grows.bears {g g' : Graph OrderItem} (h : Grows g g') {isSink : Bool} {k : NodeKey}
    {i : OrderItem} (hk : g.Bears isSink k i) : g'.Bears isSink k i := by
  obtain ⟨n, hn, rfl, hc, hr⟩ := hk
  obtain ⟨n', hn', hd, hc', hr'⟩ := h.node hn
  exact ⟨n', hn', hd, hc'.trans hc, hr'.trans hr⟩

theorem Grows.addItems (g : Graph OrderItem) (isSink : Bool) (items : List OrderItem) :
    Grows g (g.addItems isSink items) where
  node hn := ⟨_, Graph.node?_addItems_old hn isSink items, rfl, rfl, rfl⟩
  edge he := ⟨_, he, rfl, rfl⟩

/-- Places and flow aside, a graph says what its nodes stand for. -/
theorem SamePlaces.bears_iff {g g' : Graph OrderItem} (h : SamePlaces g g') {isSink : Bool}
    {k : NodeKey} {i : OrderItem} : g'.Bears isSink k i ↔ g.Bears isSink k i := by
  have himp : ∀ {g g' : Graph OrderItem}, SamePlaces g g' → g'.Bears isSink k i →
      g.Bears isSink k i := by
    rintro g g' h ⟨n, hn, rfl, hc, hr⟩
    obtain ⟨m, hm, he⟩ := h.exists_node hn
    injection he with hd hc' hr'
    exact ⟨m, hm, hd.symm, hc'.symm.trans hc, hr'.symm.trans hr⟩
  exact ⟨himp h, himp ⟨fun k => (h.node k).symm, h.nextCollection.symm⟩⟩

theorem SameFlow.bears_iff {g g' : Graph OrderItem} (h : SameFlow g g') {isSink : Bool}
    {k : NodeKey} {i : OrderItem} : g'.Bears isSink k i ↔ g.Bears isSink k i :=
  ⟨(Grows.of_sameFlow h.symm).bears, (Grows.of_sameFlow h).bears⟩

/-- A node of the graph with more items is an old one, or stands for one of them. -/
theorem Graph.bears_addItems_cases {g : Graph OrderItem} {isSink s : Bool} {items : List OrderItem}
    {k : NodeKey} {i : OrderItem} (h : (g.addItems s items).Bears isSink k i) :
    g.Bears isSink k i ∨ ∃ j, k = g.nodes.length + j ∧ items[j]? = some i ∧ isSink = s := by
  obtain ⟨n, hn, rfl, hc, rfl⟩ := h
  rw [node?, addItems, List.getElem?_append] at hn
  split at hn
  · exact Or.inl ⟨n, hn, rfl, hc, rfl⟩
  · next hlt =>
    rw [List.getElem?_map] at hn
    obtain ⟨i, hi, rfl⟩ := Option.map_eq_some_iff.1 hn
    exact Or.inr ⟨_, (Nat.add_sub_cancel' (Nat.le_of_not_lt hlt)).symm, hi, rfl⟩

theorem SameFlow.length_eq {α : Type} {g g' : Graph α} (h : SameFlow g g') :
    g'.nodes.length = g.nodes.length := by
  have hle : ∀ {g g' : Graph α}, SameFlow g g' → g'.nodes.length ≤ g.nodes.length := by
    intro g g' h
    by_contra hlt
    obtain ⟨m, hm, -⟩ := h.exists_node (k := g.nodes.length)
      (List.getElem?_eq_getElem (by omega : g.nodes.length < g'.nodes.length))
    exact absurd (Graph.node?_eq_some_lt hm) (Nat.lt_irrefl _)
  exact Nat.le_antisymm (hle h) (hle h.symm)

theorem SameFlow.addItems {g g' : Graph OrderItem} (h : SameFlow g g') (isSink : Bool)
    (items : List OrderItem) : SameFlow (g.addItems isSink items) (g'.addItems isSink items) where
  node k := by
    simp only [Graph.node?, Graph.addItems, List.getElem?_append, h.length_eq]
    split
    · exact h.node k
    · rfl
  edges := h.edges

/-! ## Placing -/

variable {w : Network OrderItem Order} {ls : List (List NodeKey)}

/-- Items are placed as nodes at the end of a collection. -/
theorem placeItems_spec (isSink : Bool) : ∀ (items : List OrderItem) {w : Network OrderItem Order}
    {ls : List (List NodeKey)} {i : CollectionId} {c : Collection Order} {l : List NodeKey},
    w.Lists ls → w.collections[i]? = some c → ls[i]? = some l →
      ∃ c' g, placeItems isSink items c w.graph = (.ok (), c', g) ∧
        c'.data = c.data ∧ c'.maxFlow = c.maxFlow ∧
        SameFlow (w.graph.addItems isSink items) g ∧
        Network.Lists ⟨g, w.collections.set i c'⟩
          (ls.modify i (· ++ List.range' w.graph.nodes.length items.length))
  | [], w, ls, i, c, l, h, hc, hl => by
    refine ⟨c, w.graph, rfl, rfl, rfl, by simpa [Graph.addItems] using SameFlow.refl w.graph, ?_⟩
    have hid : (· ++ List.range' w.graph.nodes.length ([] : List OrderItem).length) =
        (id : List NodeKey → _) := by
      funext l
      simp
    rw [hid, List.modify_id]
    exact h.keep hc hl (h.holds hc hl) rfl (.refl _)
  | item :: items, w, ls, i, c, l, h, hc, hl => by
    set k := w.graph.nextNode with hk
    have hfree : (w.graph.addNode item item.quantity.toNat isSink).place? k = some .free := by
      rw [Graph.place?, Graph.node?_addNode, if_pos rfl]
      rfl
    obtain ⟨c₁, g₁, hr, hd, hm, h₁⟩ :=
      (h.addNode item item.quantity.toNat isSink).append hc hl hfree
    have hadd := c.add_sameFlow (w.graph.addNode item item.quantity.toNat isSink) k
    rw [hr] at hadd
    have hi := (List.getElem?_eq_some_iff.1 hc).1
    obtain ⟨c', g, hr', hd', hm', hs, h'⟩ := placeItems_spec isSink items h₁ (i := i) (c := c₁)
      (l := l ++ [k]) (by simp [hi]) (by simp [hl])
    have hlen : g₁.nodes.length = w.graph.nodes.length + 1 := by
      rw [hadd.length_eq]
      simp [Graph.addNode]
    refine ⟨c', g, ?_, hd'.trans hd, hm'.trans hm, ?_, ?_⟩
    · rw [placeItems, ← hk, hr]
      exact hr'
    · rw [Graph.addItems_cons]
      exact (hadd.addItems isSink items).trans hs
    · rw [List.set_set, List.modify_modify_eq, hlen] at h'
      have hlist : (fun l => l ++ List.range' w.graph.nodes.length (item :: items).length) =
          (fun l => l ++ List.range' (w.graph.nodes.length + 1) items.length) ∘ (· ++ [k]) := by
        funext l
        simp [hk, Graph.nextNode, List.range'_succ]
      rw [hlist]
      exact h'

/-- What becomes of a network when an order is placed. -/
structure Placed (w : Network OrderItem Order) (ls : List (List NodeKey)) (o : LoadedOrder)
    (isSink : Bool) (c : Collection Order) (g : Graph OrderItem) : Prop where
  data : c.data = o.order
  maxFlow : c.maxFlow = o.order.numItems.toNat
  sameFlow : SameFlow (w.graph.addItems isSink o.items) g
  lists : Network.Lists ⟨g, w.collections ++ [c]⟩
    (ls ++ [List.range' w.graph.nodes.length o.items.length])

/-- **Placing**: an order can be placed in every network. -/
theorem place_spec (h : w.Lists ls) (o : LoadedOrder) (isSink : Bool) :
    ∃ c g, o.place isSink w.graph = (.ok (), c, g) ∧ Placed w ls o isSink c g := by
  have h₁ := h.collect o.order o.order.numItems.toNat
  obtain ⟨c, g, hr, hd, hm, hs, h'⟩ := placeItems_spec isSink o.items h₁
    (i := w.collections.length) (c := (w.graph.newCollection o.order o.order.numItems.toNat).1)
    (l := []) (by simp) (by simp [← h.length])
  refine ⟨c, g, hr, hd, hm, ⟨hs.node, hs.edges⟩, ?_⟩
  have hset : (w.collections ++ [(w.graph.newCollection o.order o.order.numItems.toNat).1]).set
      w.collections.length c = w.collections ++ [c] := by simp
  have hmodify : ∀ m : List NodeKey,
      (ls ++ [[]]).modify w.collections.length (· ++ m) = ls ++ [m] := by
    intro m
    rw [← h.length, List.modify_eq_take_cons_drop (by simp)]
    simp
  rw [hset, hmodify] at h'
  exact h'

theorem Collection.cursor_add {α β : Type} (c : Collection β) (g : Graph α) (k : NodeKey) :
    (c.add g k).2.1.cursor = c.cursor := by
  unfold add
  split
  · rfl
  · split
    · rfl
    · dsimp only
      split
      · rfl
      · split <;> rfl

theorem cursor_placeItems (isSink : Bool) (items : List OrderItem) (c : Collection Order)
    (g : Graph OrderItem) : (placeItems isSink items c g).2.1.cursor = c.cursor := by
  induction items generalizing c g with
  | nil => rfl
  | cons i items ih =>
    have hcursor := c.cursor_add (g.addNode i i.quantity.toNat isSink) g.nextNode
    rw [placeItems]
    rcases hadd : c.add (g.addNode i i.quantity.toNat isSink) g.nextNode with ⟨_ | _, c', g'⟩
    · rwa [hadd] at hcursor
    · rw [hadd] at hcursor
      exact (ih c' g').trans hcursor

/-- Placing an order does not begin a stream. -/
theorem cursor_place (o : LoadedOrder) (isSink : Bool) (g : Graph OrderItem) :
    (o.place isSink g).2.1.cursor = none := cursor_placeItems isSink o.items _ _

namespace Placed

variable {o : LoadedOrder} {isSink : Bool} {c : Collection Order} {g : Graph OrderItem}

theorem sound (h : Placed w ls o isSink c g) (hs : w.graph.Sound) : g.Sound :=
  (hs.addItems isSink o.items).congr h.sameFlow

theorem still (h : Placed w ls o isSink c g) (hs : w.graph.Still) : g.Still :=
  Graph.Still.congr (g := w.graph.addItems isSink o.items) hs h.sameFlow

theorem grows (h : Placed w ls o isSink c g) : Grows w.graph g :=
  (Grows.addItems w.graph isSink o.items).trans (.of_sameFlow h.sameFlow)

/-- There are no new edges. -/
theorem leads_iff (h : Placed w ls o isSink c g) {a b : NodeKey} :
    g.Leads a b ↔ w.graph.Leads a b := Graph.leads_congr h.sameFlow

theorem bears (h : Placed w ls o isSink c g) {j : Nat} {i : OrderItem} (hi : o.items[j]? = some i) :
    g.Bears isSink (w.graph.nodes.length + j) i :=
  (Grows.of_sameFlow h.sameFlow).bears (w.graph.bears_addItems isSink hi)

/-- A node is an old one, or stands for an item of the order. -/
theorem bears_cases (h : Placed w ls o isSink c g) {s : Bool} {k : NodeKey} {i : OrderItem}
    (hk : g.Bears s k i) : w.graph.Bears s k i ∨
      ∃ j, k = w.graph.nodes.length + j ∧ o.items[j]? = some i ∧ s = isSink :=
  Graph.bears_addItems_cases (h.sameFlow.bears_iff.1 hk)

theorem holds (h : Placed w ls o isSink c g) :
    c.Holds g (List.range' w.graph.nodes.length o.items.length) :=
  h.lists.holds (i := w.collections.length) (by simp) (by
    have hlength := h.lists.length
    simp only [List.length_append, List.length_singleton, Nat.add_right_cancel_iff] at hlength
    rw [← hlength]
    simp)

/-- The nodes of the collection are those of the items, in order. -/
theorem itemNodes_eq (h : Placed w ls o isSink c g) :
    c.itemNodes g = (List.range' w.graph.nodes.length o.items.length).zip o.items := by
  have hzip : ∀ (items : List OrderItem) (start : Nat),
      (∀ j i, items[j]? = some i → g.Bears isSink (start + j) i) →
        ((List.range' start items.length).filterMap fun k => (g.node? k).map fun n => (k, n.data)) =
          (List.range' start items.length).zip items := by
    intro items
    induction items with
    | nil => exact fun _ _ => rfl
    | cons i is ih =>
      intro start hg
      obtain ⟨n, hn, hi, -⟩ := hg 0 i rfl
      rw [Nat.add_zero] at hn
      rw [List.length_cons, List.range'_succ, List.zip_cons_cons, List.filterMap_cons]
      simp only [hn, Option.map_some, hi]
      rw [ih (start + 1)]
      intro j i' hi'
      rw [Nat.add_assoc, Nat.add_comm 1 j]
      exact hg (j + 1) i' hi'
  rw [Collection.itemNodes, h.holds.members_eq]
  exact hzip o.items _ fun j i hi => h.bears hi

theorem itemNodes_items (h : Placed w ls o isSink c g) :
    (c.itemNodes g).map Prod.snd = o.items := by
  rw [h.itemNodes_eq, List.map_snd_zip (by simp)]

theorem itemNodes_keys (h : Placed w ls o isSink c g) :
    (c.itemNodes g).map Prod.fst = List.range' w.graph.nodes.length o.items.length := by
  rw [h.itemNodes_eq, List.map_fst_zip (by simp)]

theorem mem_itemNodes (h : Placed w ls o isSink c g) {p : NodeKey × OrderItem}
    (hp : p ∈ c.itemNodes g) : ∃ j, p.1 = w.graph.nodes.length + j ∧ o.items[j]? = some p.2 := by
  rw [h.itemNodes_eq] at hp
  obtain ⟨j, hj⟩ := List.mem_iff_getElem?.1 hp
  obtain ⟨hk, hi⟩ := List.getElem?_zip_eq_some.1 hj
  refine ⟨j, ?_, hi⟩
  rw [List.getElem?_range' (List.getElem?_eq_some_iff.1 hi).1, Nat.one_mul] at hk
  exact (Option.some.inj hk).symm

theorem bears_of_mem (h : Placed w ls o isSink c g) {p : NodeKey × OrderItem}
    (hp : p ∈ c.itemNodes g) : g.Bears isSink p.1 p.2 := by
  obtain ⟨j, hk, hi⟩ := h.mem_itemNodes hp
  rw [hk]
  exact h.bears hi

/-- The nodes were not there before. -/
theorem node?_of_mem (h : Placed w ls o isSink c g) {p : NodeKey × OrderItem}
    (hp : p ∈ c.itemNodes g) : w.graph.node? p.1 = none := by
  obtain ⟨j, hk, -⟩ := h.mem_itemNodes hp
  rw [hk]
  exact List.getElem?_eq_none (Nat.le_add_right _ _)

end Placed
end Matchbook.Flow
