/-
  Lots keep track of the graph in which an order is filled.

  * `Graph.Carries`: a unit passes from one node to another;
  * `Tracked`: each item of a candidate that stands for a unit has a lot, taken by the root
    item that its unit reaches;
  * `Tracked.fed`: what is read off the graph for a root item is what it took, and so for
    all of them (`Tracked.filling_eq`);
  * `Tracked.visit_rel`: a root item has an open edge exactly if it takes a lot, and lots
    track the graph with a unit along this edge.
-/
import Matchbook.Proofs.Search.Greedy
import Matchbook.Proofs.Search.Threading
import Matchbook.Proofs.Search.Units

namespace Matchbook.Flow

variable {α : Type} {g : Graph α}

namespace Graph

/-! ## Units from node to node -/

/-- Some edge carries a unit from the one node to the other. -/
def Carries (g : Graph α) (a b : NodeKey) : Prop :=
  ∃ k e, g.edge? k = some e ∧ 0 < e.flow ∧ e.source = a ∧ e.sink = b

/-- A unit that is pushed along an edge passes between its ends. -/
theorem carries_unitAlong {k : EdgeKey} {e : Edge} (he : g.edge? k = some e) {a b : NodeKey} :
    (g.unitAlong k e).Carries a b ↔ g.Carries a b ∨ a = e.source ∧ b = e.sink := by
  constructor
  · rintro ⟨j, d', hd', hpos, rfl, rfl⟩
    obtain ⟨d, hd, hsource, hsink, ⟨rfl, -⟩ | hflow⟩ := edge?_unitAlong_cases hd'
    · obtain rfl := Option.some.inj (he.symm.trans hd)
      exact Or.inr ⟨hsource, hsink⟩
    · exact Or.inl ⟨j, d, hd, hflow ▸ hpos, hsource.symm, hsink.symm⟩
  · rintro (⟨j, d, hd, hpos, rfl, rfl⟩ | ⟨rfl, rfl⟩)
    · by_cases hj : j = k
      · refine ⟨j, { d with flow := d.flow + 1 }, ?_, Nat.succ_pos _, rfl, rfl⟩
        rw [edge?_unitAlong, if_pos hj, hd]
        rfl
      · refine ⟨j, d, ?_, hpos, rfl, rfl⟩
        rw [edge?_unitAlong, if_neg hj, hd]
    · refine ⟨k, { e with flow := e.flow + 1 }, ?_, Nat.succ_pos _, rfl, rfl⟩
      rw [edge?_unitAlong, if_pos rfl, he]
      rfl

namespace Sound

/-- Units pass through a source exactly if they pass to some sink. -/
theorem flow_pos_iff (h : g.Sound) {a : NodeKey} {n : Node α} (hn : g.node? a = some n)
    (hsource : n.isSink = false) : 0 < n.flow ↔ ∃ b, g.Carries a b := by
  rw [← units_eq hn, ← h.length_carrying, List.length_pos_iff_exists_mem]
  constructor
  · rintro ⟨k, hk⟩
    obtain ⟨e, he, hpos, ht⟩ := h.mem_carrying.1 hk
    exact ⟨e.sink, k, e, he, hpos, h.source_eq he hn hsource ht, rfl⟩
  · rintro ⟨b, k, e, he, hpos, hs, -⟩
    exact ⟨k, h.mem_carrying.2 ⟨e, he, hpos, Or.inl hs.symm⟩⟩

end Sound
end Graph
end Matchbook.Flow

namespace Matchbook.Search

open Matchbook.Flow

/-! ## Tracking -/

/-- The lot is the item's, and it was taken by the root item that the unit of the source
    reaches. -/
structure Tracks (g : Graph OrderItem) (s : NodeKey × OrderItem) (lot : Lot) : Prop where
  item : lot.item = s.2
  taker : ∀ j, lot.taker = some j ↔ g.Carries s.1 j

/-- The sources that stand for a unit. -/
def supply (sources : List (NodeKey × OrderItem)) : List (NodeKey × OrderItem) :=
  sources.filter fun s => decide (0 < s.2.quantity.toNat)

/-- The graph joins the root items with sources for one unit or none, and the lots are
    those of the sources. -/
structure Tracked (chain : Chain) (roots sources : List (NodeKey × OrderItem)) (g : Graph OrderItem)
    (lots : List Lot) : Prop where
  sound : g.Sound
  threaded : Threaded chain roots sources g
  single : ∀ s ∈ sources, s.2.quantity.toNat ≤ 1
  lots : List.Forall₂ (Tracks g) (supply sources) lots

/-- A lot is left exactly if nothing flows from its source. -/
theorem Tracks.isNone_iff {g : Graph OrderItem} {s : NodeKey × OrderItem} {lot : Lot}
    (h : Tracks g s lot) : lot.taker.isNone = true ↔ ¬ ∃ b, g.Carries s.1 b := by
  rw [Option.isNone_iff_eq_none, Option.eq_none_iff_forall_ne_some]
  simp only [ne_eq, h.taker, not_exists]

/-- A lot is taken by the sink to which its unit is pushed. -/
theorem Tracks.take {g : Graph OrderItem} {s : NodeKey × OrderItem} {lot : Lot} (h : Tracks g s lot)
    (hfree : lot.taker = none) {k : EdgeKey} {e : Edge} (he : g.edge? k = some e)
    (hsource : e.source = s.1) :
    Tracks (g.unitAlong k e) s { lot with taker := some e.sink } where
  item := h.item
  taker j := by
    rw [Graph.carries_unitAlong he, ← h.taker, hfree, Option.some.injEq, hsource]
    simp [eq_comm]

/-- Other units do not matter to a lot. -/
theorem Tracks.keep {g : Graph OrderItem} {s : NodeKey × OrderItem} {lot : Lot} (h : Tracks g s lot)
    {k : EdgeKey} {e : Edge} (he : g.edge? k = some e) (hne : s.1 ≠ e.source) :
    Tracks (g.unitAlong k e) s lot where
  item := h.item
  taker j := by
    rw [Graph.carries_unitAlong he, h.taker]
    simp [hne]

namespace Tracked

variable {chain : Chain} {roots sources : List (NodeKey × OrderItem)} {g : Graph OrderItem}
  {lots : List Lot} (h : Tracked chain roots sources g lots)
include h

theorem eq_of_key {s s' : NodeKey × OrderItem} (hs : s ∈ sources) (hs' : s' ∈ sources)
    (hkey : s.1 = s'.1) : s = s' :=
  List.inj_on_of_nodup_map h.threaded.nodup hs hs' hkey

/-- A source has room exactly if it stands for a unit that did not flow yet. -/
theorem hasRoom_iff {s : NodeKey × OrderItem} (hs : s ∈ sources) :
    g.hasRoom s.1 = true ↔ 0 < s.2.quantity.toNat ∧ ¬ ∃ b, g.Carries s.1 b := by
  obtain ⟨n, hn, -, hcap, hsource⟩ := h.threaded.source s hs
  have hone := h.single s hs
  rw [← h.sound.flow_pos_iff hn hsource]
  simp only [Graph.hasRoom, hn, Node.hasCapacity, decide_eq_true_eq]
  omega

/-- Where a unit passes, the source stands for it. -/
theorem pos_of_carries {s : NodeKey × OrderItem} (hs : s ∈ sources) {b : NodeKey}
    (hb : g.Carries s.1 b) : 0 < s.2.quantity.toNat := by
  obtain ⟨n, hn, -, hcap, hsource⟩ := h.threaded.source s hs
  have hpos := (h.sound.flow_pos_iff hn hsource).2 ⟨b, hb⟩
  have hle := h.sound.flow_le_capacity hn
  omega

section Root

variable {r : NodeKey × OrderItem} (hr : r ∈ roots)
include hr

/-- Where a unit passes to a root item, the chain accepts the item of the source. -/
theorem admits_of_carries {s : NodeKey × OrderItem} (hs : s ∈ sources) (hc : g.Carries s.1 r.1) :
    chain.admits r.2 s.2 = true := by
  obtain ⟨k, e, he, -, hsource, hsink⟩ := hc
  have hk : k ∈ g.edgesOf r.1 := h.sound.mem_edgesOf.2 ⟨e, he, Or.inr hsink.symm⟩
  obtain ⟨s', hs', e', he', hsource', -⟩ := forall₂_mem_right (h.threaded.edges r hr).flip hk
  obtain rfl := Option.some.inj (he.symm.trans he')
  obtain ⟨hs', hadmits⟩ := List.mem_filter.1 hs'
  rwa [h.eq_of_key hs hs' (hsource.symm.trans hsource')]

/-! ## What a root item took -/

open Classical in
/-- The sources from which units pass to a root item stand for them, and the chain accepts
    their items. -/
theorem filter_carries : ((sources.filter fun s => chain.admits r.2 s.2).filter fun s =>
    decide (g.Carries s.1 r.1)) = (supply sources).filter fun s => decide (g.Carries s.1 r.1) := by
  rw [supply, List.filter_filter, List.filter_filter]
  refine List.filter_congr fun s hs => ?_
  by_cases hc : g.Carries s.1 r.1
  · rw [h.admits_of_carries hr hs hc, decide_eq_true (h.pos_of_carries hs hc)]
  · rw [decide_eq_false hc, Bool.false_and, Bool.false_and]

open Classical in
/-- The edges that carry units to a root item deliver the items of the sources from which
    they come, in the order of the sources. -/
theorem delivers : List.Forall₂ (Delivers g) (g.carrying r.1)
    (((supply sources).filter fun s => decide (g.Carries s.1 r.1)).map Prod.snd) := by
  have hfrom : List.Forall₂ (EdgeFrom g r.1) (g.carrying r.1)
      ((sources.filter fun s => chain.admits r.2 s.2).filter fun s =>
        decide (g.Carries s.1 r.1)) := by
    refine List.rel_filter (fun k s hks => ?_) (h.threaded.edges r hr)
    obtain ⟨e, he, hsource, hsink⟩ := hks
    simp only [Graph.carried_eq he, decide_eq_true_eq]
    refine ⟨fun hpos => ⟨k, e, he, hpos, hsource, hsink⟩, ?_⟩
    rintro ⟨j, d, hd, hpos, hsource', hsink'⟩
    -- no other edge joins the two
    obtain rfl := h.sound.unique he hd (Or.inl ⟨hsource, hsink⟩) (Or.inl ⟨hsource', hsink'⟩)
    obtain rfl := Option.some.inj (he.symm.trans hd)
    exact hpos
  rw [h.filter_carries hr] at hfrom
  rw [List.forall₂_map_right_iff]
  refine forall₂_imp_mem hfrom fun k hk s hs hks => ?_
  obtain ⟨e, he, hsource, -⟩ := hks
  obtain ⟨d, hd, hpos, -⟩ := h.sound.mem_carrying.1 hk
  obtain rfl := Option.some.inj (he.symm.trans hd)
  obtain ⟨n, hn, hdata, -⟩ := h.threaded.source s (List.filter_sublist.subset
    (List.filter_sublist.subset hs))
  exact ⟨e, n, he, hpos, hsource ▸ hn, hdata⟩

open Classical in
/-- **Reading** the graph for a root item gives the items that it took. -/
theorem fed : Fed g r (r.2, (lots.filter (·.taker == some r.1)).map Lot.item) := by
  have htaken : List.Forall₂ (Tracks g)
      ((supply sources).filter fun s => decide (g.Carries s.1 r.1))
        (lots.filter (·.taker == some r.1)) := by
    refine List.rel_filter (fun s lot htracks => ?_) h.lots
    simp only [decide_eq_true_eq, beq_iff_eq, htracks.taker]
  have hitems : (lots.filter (·.taker == some r.1)).map Lot.item =
      ((supply sources).filter fun s => decide (g.Carries s.1 r.1)).map Prod.snd := by
    exact (map_eq_map_iff_forall₂.2 (htaken.imp fun _ _ htracks => htracks.item.symm)).symm
  exact ⟨rfl, hitems ▸ h.delivers hr⟩

/-- A root item took as many lots as units reach it. -/
theorem held_eq : held r.1 lots = g.units r.1 := by
  rw [held, List.countP_eq_length_filter, ← List.length_map (f := Lot.item),
    ← h.sound.length_carrying, (h.fed hr).opposing.length_eq]

end Root

/-! ## Taking one more -/

/-- An edge to a sink with room takes a unit exactly if its source has room. -/
theorem canPush_eq {b : NodeKey} (hroom : g.hasRoom b = true) {s : NodeKey × OrderItem}
    (hs : s ∈ sources) {k : EdgeKey} (hk : EdgeFrom g b k s) : g.canPush k = g.hasRoom s.1 := by
  obtain ⟨e, he, hsource, hsink⟩ := hk
  have hpush : g.canPush k = (!e.isSaturated && g.hasRoom s.1) := by
    simp only [Graph.canPush, he, hsource, hsink, hroom, Bool.and_true]
  rw [hpush]
  cases hs' : g.hasRoom s.1 with
  | false => exact Bool.and_false _
  | true =>
    -- nothing flows along the edge, as nothing flows from its source
    have hflow : ¬ 0 < e.flow := fun hpos =>
      ((h.hasRoom_iff hs).1 hs').2 ⟨b, k, e, he, hpos, hsource, hsink⟩
    simp [Edge.isSaturated, Nat.eq_zero_of_not_pos hflow]

/-- The first source that the chain accepts and that has room is the first such one of
    those that stand for a unit. -/
theorem find?_supply (accepts : OrderItem → Bool) :
    ((sources.filter fun s => accepts s.2).find? fun s => g.hasRoom s.1) =
      (supply sources).find? fun s => g.hasRoom s.1 && accepts s.2 := by
  rw [supply, ← List.head?_filter, ← List.head?_filter, List.filter_filter, List.filter_filter]
  refine congrArg List.head? (List.filter_congr fun s hs => ?_)
  cases hroom : g.hasRoom s.1 with
  | false => simp
  | true => simp [((h.hasRoom_iff hs).1 hroom).1]

/-- A source that stands for a unit has room exactly if its lot is left. -/
theorem hasRoom_eq {s : NodeKey × OrderItem} {lot : Lot} (hs : s ∈ supply sources)
    (htracks : Tracks g s lot) : g.hasRoom s.1 = lot.taker.isNone := by
  obtain ⟨hs, hpos⟩ := List.mem_filter.1 hs
  rw [Bool.eq_iff_iff, h.hasRoom_iff hs, htracks.isNone_iff]
  exact and_iff_right (of_decide_eq_true hpos)

variable {r : NodeKey × OrderItem} (hr : r ∈ roots)
include hr

/-- **A visit** takes a lot exactly if the root item has an open edge, and the lots track
    the graph with a unit along it. -/
theorem visit_rel : Option.Rel (fun k lots' => ∀ e, g.edge? k = some e →
      List.Forall₂ (Tracks (g.unitAlong k e)) (supply sources) lots')
    (Collection.openEdge g r.1) (visit chain lots r) := by
  obtain ⟨n, hn, -, hcap, -⟩ := h.threaded.root r hr
  have hroom : g.hasRoom r.1 = decide (held r.1 lots < r.2.quantity.toNat) := by
    simp only [Graph.hasRoom, hn, Node.hasCapacity, h.held_eq hr, Graph.units_eq hn, hcap]
  rw [Collection.openEdge, visit]
  by_cases hneeds : held r.1 lots < r.2.quantity.toNat
  case neg =>
    rw [if_neg hneeds, if_neg (by simp [hroom, hneeds])]
    exact .none
  case pos =>
    rw [decide_eq_true hneeds] at hroom
    rw [if_pos hneeds, if_pos hroom, Collection.pushableEdge]
    have hedges : List.Forall₂ (fun k s => s ∈ sources ∧ EdgeFrom g r.1 k s) (g.edgesOf r.1)
        (sources.filter fun s => chain.admits r.2 s.2) :=
      forall₂_imp_mem (h.threaded.edges r hr) fun k _ s hs hks => ⟨(List.mem_filter.1 hs).1, hks⟩
    have hedge := forall₂_find? (p := g.canPush) (q := fun s => g.hasRoom s.1)
      (fun hks => h.canPush_eq hroom hks.1 hks.2) hedges
    rw [h.find?_supply] at hedge
    have hnodup : (supply sources).Nodup := (List.Nodup.of_map _ h.threaded.nodup).filter _
    have hlots := takeFirst_rel (chain.admits r.2) (fun s => g.hasRoom s.1 && chain.admits r.2 s.2)
      r.1 h.lots hnodup fun hs htracks => by rw [h.hasRoom_eq hs htracks, htracks.item]
    generalize (supply sources).find? (fun s => g.hasRoom s.1 && chain.admits r.2 s.2) = found
      at hedge hlots
    generalize (g.edgesOf r.1).find? g.canPush = edge at hedge ⊢
    generalize takeFirst (chain.admits r.2) r.1 lots = after at hlots ⊢
    cases hedge with
    | none =>
      cases hlots
      exact .none
    | some hks =>
      cases hlots with
      | some htaken =>
        obtain ⟨hs, e', he', hsource, hsink⟩ := hks
        refine .some fun e he => ?_
        obtain rfl := Option.some.inj (he.symm.trans he')
        refine htaken (fun htracks hfree => ?_) fun hs' hne htracks => htracks.keep he ?_
        · exact hsink ▸ htracks.take hfree he hsource
        · exact fun heq => hne (h.eq_of_key (List.mem_filter.1 hs').1 hs (heq.trans hsource))

end Tracked

/-! ## What all of them took -/

theorem Delivers.item_eq {g : Graph OrderItem} {k : EdgeKey} {i i' : OrderItem} (h : Delivers g k i)
    (h' : Delivers g k i') : i = i' := by
  obtain ⟨e, n, he, -, hn, rfl⟩ := h
  obtain ⟨e', n', he', -, hn', rfl⟩ := h'
  obtain rfl := Option.some.inj (he.symm.trans he')
  rw [Option.some.inj (hn.symm.trans hn')]

/-- What is read off the graph is what the items took. -/
theorem Tracked.filling_eq {chain : Chain} {items : List OrderItem}
    {sources : List (NodeKey × OrderItem)} {g : Graph OrderItem} {lots : List Lot}
    (h : Tracked chain (numbered items) sources g lots)
    {filling : List (OrderItem × List OrderItem)}
    (hfed : List.Forall₂ (Fed g) (numbered items) filling) : filling = assigned items lots := by
  have hassigned : List.Forall₂ (fun r f => Fed g r f) (numbered items) (assigned items lots) := by
    rw [assigned, List.forall₂_map_right_iff, List.forall₂_same]
    exact fun r hr => h.fed hr
  refine List.right_unique_forall₂' (fun r f f' hf hf' => ?_) hfed hassigned
  refine Prod.ext (hf.item.trans hf'.item.symm) ?_
  exact List.right_unique_forall₂' (fun _ _ _ hi hi' => hi.item_eq hi') hf.opposing hf'.opposing

end Matchbook.Search
