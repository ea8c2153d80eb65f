/-
  Orders that trade in one graph.

  * `Graph.room` is what nodes can let through together, never less than they do
    (`Sound.load_le_room`);
  * `Network.placeAll` fills a network with orders, and `Action.Trades` are the actions that
    may follow;
  * `Network.Holdings`: each collection is capped at what its order says, and its members
    have no more room than that; `Holdings.place` and `Holdings.step` keep it;
  * `placeAll_trades`: no order ever trades more than it holds.
-/
import Matchbook.Proofs.Flow.Cap
import Matchbook.Proofs.Flow.Placing
import Matchbook.Proofs.Order.Binding

namespace Matchbook.Flow

variable {α β : Type}

/-! ## Room -/

namespace Graph

/-- The most units that the node may let through. -/
def capacity (g : Graph α) (k : NodeKey) : Nat := (g.node? k).elim 0 Node.capacity

/-- The most units that the nodes may let through together. -/
def room (g : Graph α) (l : List NodeKey) : Nat := (l.map g.capacity).sum

theorem capacity_eq {g : Graph α} {k : NodeKey} {n : Node α} (h : g.node? k = some n) :
    g.capacity k = n.capacity := by simp [capacity, h]

theorem Sound.units_le_capacity {g : Graph α} (h : g.Sound) (k : NodeKey) :
    g.units k ≤ g.capacity k := by
  cases hn : g.node? k with
  | none => simp [units, hn]
  | some n =>
    rw [units_eq hn, capacity_eq hn]
    exact h.flow_le_capacity hn

theorem Sound.load_le_room {g : Graph α} (h : g.Sound) (l : List NodeKey) :
    g.load l ≤ g.room l := List.sum_le_sum fun k _ => h.units_le_capacity k

/-- Fewer nodes with the same capacities have less room. -/
theorem room_le {g g' : Graph α} (hg : g'.capacity = g.capacity) {l l' : List NodeKey}
    (hl : l'.Sublist l) : g'.room l' ≤ g.room l := by
  rw [room, hg]
  exact (hl.map g.capacity).sum_le_sum fun _ _ => Nat.zero_le _

/-- Nodes that stand for items have as much room as the items ask for. -/
theorem room_range {g : Graph OrderItem} {isSink : Bool} {start : Nat} {items : List OrderItem}
    (h : ∀ {j i}, items[j]? = some i → g.Bears isSink (start + j) i) :
    g.room (List.range' start items.length) = (items.map (·.quantity.toNat)).sum := by
  refine congrArg List.sum (List.ext_getElem (by simp) fun j hj _ => ?_)
  simp only [List.length_map, List.length_range'] at hj
  obtain ⟨n, hn, -, hcapacity, -⟩ := h (List.getElem?_eq_getElem hj)
  simpa [capacity_eq hn] using hcapacity

end Graph

/-- Nodes have the same capacities where they are the same but for something else. -/
theorem Graph.capacity_congr {g g' : Graph α} (bare : Node α → Node α)
    (hbare : ∀ n, (bare n).capacity = n.capacity)
    (h : ∀ k, (g'.node? k).map bare = (g.node? k).map bare) : g'.capacity = g.capacity := by
  have hcapacity : ∀ g : Graph α,
      g.capacity = fun k => ((g.node? k).map bare).elim 0 Node.capacity := by
    intro g
    funext k
    unfold Graph.capacity
    cases g.node? k with
    | none => rfl
    | some n => exact (hbare n).symm
  rw [hcapacity, hcapacity]
  funext k
  rw [h k]

theorem SameFlow.capacity {g g' : Graph α} (h : SameFlow g g') : g'.capacity = g.capacity :=
  Graph.capacity_congr Node.alone (fun _ => rfl) h.node

theorem SamePlaces.capacity {g g' : Graph α} (h : SamePlaces g g') : g'.capacity = g.capacity :=
  Graph.capacity_congr Node.idle (fun _ => rfl) h.node

/-- A node has the same capacity in a graph that has grown. -/
theorem Grows.capacity_eq {g g' : Graph α} (h : Grows g g') {k : NodeKey} {n : Node α}
    (hn : g.node? k = some n) : g'.capacity k = g.capacity k := by
  obtain ⟨n', hn', -, hcapacity, -⟩ := h.node hn
  rw [Graph.capacity_eq hn, Graph.capacity_eq hn', hcapacity]

/-! ## Trading -/

/-- The actions that trade: they bring neither nodes nor collections, and no node joins one. -/
def Action.Trades : Action α β → Prop
  | .link _ _ | .unlink _ | .push _ | .remove _ _ | .stream _ => True
  | .addNode _ _ _ | .collect _ _ | .add _ _ => False

namespace Network

/-- What the collections are about, with their caps. -/
def titles (w : Network α β) : List (β × Nat) := w.collections.map fun c => (c.data, c.maxFlow)

theorem titles_set {w : Network α β} {i : CollectionId} {c c' : Collection β} {g : Graph α}
    (hc : w.collections[i]? = some c) (hdata : c'.data = c.data) (hmax : c'.maxFlow = c.maxFlow) :
    titles ⟨g, w.collections.set i c'⟩ = w.titles :=
  map_set (fun c => (c.data, c.maxFlow)) hc (by rw [hdata, hmax])

/-- Trading changes neither capacities nor caps. -/
theorem step_keeps {w : Network α β} {ls : List (List NodeKey)} (h : w.Lists ls)
    (hs : w.graph.Sound) {a : Action α β} (ha : a.Trades) :
    (w.step a).2.graph.capacity = w.graph.capacity ∧ (w.step a).2.titles = w.titles := by
  cases a with
  | addNode | collect | add => exact ha.elim
  | link a b => exact ⟨(SamePlaces.link w.graph a b).capacity, rfl⟩
  | unlink a => exact ⟨(SamePlaces.unlink hs a).capacity, rfl⟩
  | push k => exact ⟨(SamePlaces.pushUnit w.graph k).capacity, rfl⟩
  | remove i k =>
    rcases w.onCollection_cases i fun c g => ((c.remove g k).1 |> .of, (c.remove g k).2) with
      ⟨-, he⟩ | ⟨c, hc, he⟩ <;> rw [step, he]
    · exact ⟨rfl, rfl⟩
    · obtain ⟨l, hl⟩ := h.exists_list hc
      refine ⟨?_, ?_⟩
      · obtain ⟨g₁, hg, ⟨-, hr⟩ | hr⟩ := c.remove_cases w.graph k <;> dsimp only <;> rw [hr]
        · exact hg.capacity
        · exact (SamePlaces.unlink (hs.congr hg) k).capacity.trans hg.capacity
      · rcases Collection.remove_spec hs (h.holds hc hl) k with
          ⟨-, f, hr⟩ | ⟨xs, ys, n, g, -, -, -, hr⟩ <;> rw [hr] <;> exact titles_set hc rfl rfl
  | stream i =>
    rcases w.onCollection_cases i fun c g => (.done, (c.next g).2) with
      ⟨-, he⟩ | ⟨c, hc, he⟩ <;> rw [step, he]
    · exact ⟨rfl, rfl⟩
    · rcases c.next_cases w.graph with hn | ⟨_, edge, _, e, -, -, -, -, -, hn⟩ <;> rw [hn]
      · exact ⟨rfl, titles_set hc rfl rfl⟩
      · exact ⟨(SamePlaces.unitAlong w.graph edge e).capacity, titles_set hc rfl rfl⟩

/-- Trading makes no list longer. -/
theorem enroll_sublist {a : Action α β} (ha : a.Trades) {answer : Answer}
    {ls : List (List NodeKey)} {i : CollectionId} {l' : List NodeKey}
    (h : (a.enroll answer ls)[i]? = some l') : ∃ l, ls[i]? = some l ∧ l'.Sublist l := by
  cases a with
  | addNode | collect | add => exact ha.elim
  | link | unlink | push | stream => exact ⟨l', h, .refl l'⟩
  | remove j k =>
    cases answer with
    | done => exact sublist_of_modify_erase h
    | refused | absent => exact ⟨l', h, .refl l'⟩

/-! ## Orders in one network -/

/-- Places orders one after the other, each in its role, and makes a collection of each. -/
def placeAll : List (LoadedOrder × Bool) → Network OrderItem Order →
    Except Failure (Network OrderItem Order)
  | [], w => .ok w
  | (o, isSink) :: orders, w =>
    match o.place isSink w.graph with
    | (.error f, _, _) => .error f
    | (.ok _, c, g) => placeAll orders ⟨g, w.collections ++ [c]⟩

/-- Each order is a collection that is capped at what it trades, and the members have no more
    room than that. -/
structure Holdings (orders : List LoadedOrder) (w : Network OrderItem Order)
    (ls : List (List NodeKey)) : Prop where
  lists : w.Lists ls
  sound : w.graph.Sound
  titles : w.titles = orders.map fun o => (o.order, o.order.numItems.toNat)
  room : ∀ {i : Nat} {l : List NodeKey} {o : LoadedOrder}, ls[i]? = some l →
    orders[i]? = some o → w.graph.room l ≤ o.order.numItems.toNat

namespace Holdings

variable {orders : List LoadedOrder} {w : Network OrderItem Order} {ls : List (List NodeKey)}

theorem empty : Holdings [] .empty [] where
  lists := .empty
  sound := .empty
  titles := rfl
  room h := by cases h

theorem length_eq (h : Holdings orders w ls) : w.collections.length = orders.length := by
  simpa [Network.titles] using congrArg List.length h.titles

/-- An order brings a collection with room for all it trades, as its items add up to that. -/
theorem place (h : Holdings orders w ls) {o : LoadedOrder} (hbound : o.Bound) {isSink : Bool}
    {c : Collection Order} {g : Graph OrderItem} (hp : Placed w ls o isSink c g) :
    Holdings (orders ++ [o]) ⟨g, w.collections ++ [c]⟩
      (ls ++ [List.range' w.graph.nodes.length o.items.length]) where
  lists := hp.lists
  sound := hp.sound h.sound
  titles := by
    have htitles := h.titles
    unfold Network.titles at htitles ⊢
    simp [htitles, hp.data, hp.maxFlow]
  room {i l o'} hl ho := by
    have hlength : ls.length = orders.length := h.lists.length.trans h.length_eq
    rcases Nat.lt_or_ge i ls.length with hi | hi
    · rw [List.getElem?_append_left hi] at hl
      rw [List.getElem?_append_left (hlength ▸ hi)] at ho
      have hc := List.getElem?_eq_getElem (h.lists.length ▸ hi)
      have hsame : g.room l = w.graph.room l := by
        refine congrArg List.sum (List.map_congr_left fun k hk => ?_)
        obtain ⟨n, hn⟩ := (h.lists.holds hc hl).exists_node hk
        exact hp.grows.capacity_eq hn
      rw [hsame]
      exact h.room hl ho
    · rw [List.getElem?_append_right hi, List.getElem?_singleton] at hl
      rw [List.getElem?_append_right (hlength ▸ hi), ← hlength, List.getElem?_singleton] at ho
      split at hl
      · next hzero =>
        rw [if_pos hzero] at ho
        cases hl
        cases ho
        rw [Graph.room_range hp.bears, hbound.total]
      · cases hl

/-- Trading keeps the holdings: members may leave, and no node gets more room. -/
theorem step (h : Holdings orders w ls) {a : Action OrderItem Order} (ha : a.Trades) :
    Holdings orders (w.step a).2 (a.enroll (w.step a).1 ls) := by
  obtain ⟨hcapacity, htitles⟩ := step_keeps h.lists h.sound ha
  refine ⟨step_lists h.lists h.sound a, step_sound w a h.sound, htitles.trans h.titles, ?_⟩
  intro i l' o hl' ho
  obtain ⟨l, hl, hsub⟩ := enroll_sublist ha hl'
  exact (Graph.room_le hcapacity hsub).trans (h.room hl ho)

/-- So does any number of trades. -/
theorem after (actions : List (Action OrderItem Order)) (htrades : ∀ a ∈ actions, a.Trades) :
    ∀ {w : Network OrderItem Order} {ls : List (List NodeKey)}, Holdings orders w ls →
      ∃ ls', Holdings orders (w.after actions) ls' := by
  induction actions with
  | nil => exact fun h => ⟨_, h⟩
  | cons a actions ih =>
    obtain ⟨ha, hrest⟩ := List.forall_mem_cons.1 htrades
    exact fun h => ih hrest (h.step ha)

/-- No more units pass through the collection of an order than it trades. -/
theorem flow_le (h : Holdings orders w ls) {i : CollectionId} {o : LoadedOrder}
    {c : Collection Order} (ho : orders[i]? = some o) (hc : w.collections[i]? = some c) :
    c.data = o.order ∧ c.flow w.graph ≤ o.order.numItems.toNat ∧
      (c.hasCapacity w.graph = false ↔ c.flow w.graph = o.order.numItems.toNat) := by
  have htitle : (c.data, c.maxFlow) = (o.order, o.order.numItems.toNat) := by
    have htitles := congrArg (·[i]?) h.titles
    simpa [Network.titles, hc, ho] using htitles
  injection htitle with hdata hmax
  obtain ⟨l, hl⟩ := h.lists.exists_list hc
  have hle : c.flow w.graph ≤ o.order.numItems.toNat := by
    rw [(h.lists.holds hc hl).flow_eq]
    exact (h.sound.load_le_room l).trans (h.room hl ho)
  refine ⟨hdata, hle, ?_⟩
  rw [Collection.hasCapacity, decide_eq_false_iff_not, hmax]
  omega

/-- Orders can always be placed. -/
theorem exists_placeAll : ∀ (more : List (LoadedOrder × Bool)), (∀ p ∈ more, p.1.Bound) →
    ∀ {orders : List LoadedOrder} {w : Network OrderItem Order} {ls : List (List NodeKey)},
      Holdings orders w ls → ∃ w' ls', placeAll more w = .ok w' ∧
        Holdings (orders ++ more.map Prod.fst) w' ls'
  | [], _, orders, w, ls, h => ⟨w, ls, rfl, by simpa using h⟩
  | (o, isSink) :: more, hbound, orders, w, ls, h => by
    obtain ⟨ho, hmore⟩ := List.forall_mem_cons.1 hbound
    obtain ⟨c, g, hplace, hplaced⟩ := place_spec h.lists o isSink
    obtain ⟨w', ls', hall, h'⟩ := exists_placeAll more hmore (h.place ho hplaced)
    refine ⟨w', ls', ?_, by simpa using h'⟩
    rw [placeAll, hplace]
    exact hall

end Holdings

/-- **No order trades more than it holds**: a network can be filled with any orders that are
    bound to their items, each on either side, and whatever is then linked, unlinked, pushed,
    streamed and removed, no more units pass through the items of an order than it trades, and
    it has no capacity left exactly if they are as many. -/
theorem placeAll_trades (orders : List (LoadedOrder × Bool)) (hbound : ∀ p ∈ orders, p.1.Bound) :
    ∃ w, placeAll orders .empty = .ok w ∧ ∀ actions : List (Action OrderItem Order),
      (∀ a ∈ actions, a.Trades) → (w.after actions).collections.length = orders.length ∧
        ∀ {i : CollectionId} {p c}, orders[i]? = some p →
          (w.after actions).collections[i]? = some c → c.data = p.1.order ∧
            c.flow (w.after actions).graph ≤ p.1.order.numItems.toNat ∧
              (c.hasCapacity (w.after actions).graph = false ↔
                c.flow (w.after actions).graph = p.1.order.numItems.toNat) := by
  obtain ⟨w, ls, hplace, h⟩ := Holdings.exists_placeAll orders hbound .empty
  refine ⟨w, hplace, fun actions htrades => ?_⟩
  obtain ⟨ls', h'⟩ := h.after actions htrades
  refine ⟨by simpa using h'.length_eq, fun {i p c} hp hc => h'.flow_le ?_ hc⟩
  rw [List.nil_append, List.getElem?_map, hp]
  rfl

/-- An order with an item for each token, one of each. -/
def orderOf (id : String) (isSell : Bool) (tokens : List String) : LoadedOrder :=
  let order : Order :=
    { id, chainId := "1", isSell, numItems := .ofNat tokens.length, startPrice := .ofUInt64 5
      endPrice := .ofUInt64 5, startTime := 0, endTime := 10, maker := "alice", taker := none
      complication := "exchange", currency := "WETH", status := .validActive }
  ⟨order, tokens.map fun token => .ofOrder order (id ++ token) "collection" (some token) 1⟩

/-- A listing of one token, as a source, and an offer for two, as sinks. -/
def counterparties : List (LoadedOrder × Bool) :=
  [(orderOf "ask" true ["7"], false), (orderOf "bid" false ["7", "8"], true)]

/-- The listing is linked to both items of the offer, and each takes a unit if it can. -/
def bargain : List (Action OrderItem Order) := [.link 0 1, .link 0 2, .stream 1, .push 1]

/-- The listing is not sold twice, although it is the offer that streams. -/
theorem placeAll_trades_counterparties :
    (∀ p ∈ counterparties, p.1.Bound) ∧ (∀ a ∈ bargain, a.Trades) ∧
      ∃ w c, placeAll counterparties .empty = .ok w ∧ (w.after bargain).collections[0]? = some c ∧
        c.flow (w.after bargain).graph = 1 ∧ c.hasCapacity (w.after bargain).graph = false := by
  have hbound : ∀ p ∈ counterparties, p.1.Bound := by decide
  have htrades : ∀ a ∈ bargain, a.Trades := by simp [bargain, Action.Trades]
  obtain ⟨w, hw, hall⟩ := placeAll_trades counterparties hbound
  obtain ⟨-, htraded⟩ := hall bargain htrades
  have hflow : (placeAll counterparties .empty).toOption.bind (fun w =>
      (w.after bargain).collections[0]?.map (·.flow (w.after bargain).graph)) = some 1 := by decide
  rw [hw] at hflow
  obtain ⟨c, hc, hone⟩ := Option.map_eq_some_iff.1 hflow
  have hask : counterparties[0]? = some (orderOf "ask" true ["7"], false) := rfl
  exact ⟨hbound, htrades, w, c, hw, hc, hone, (htraded hask hc).2.2.2 hone⟩

end Network
end Matchbook.Flow
