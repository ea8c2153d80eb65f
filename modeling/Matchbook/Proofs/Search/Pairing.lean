/-
  Pairing is choosing a prospect.

  * `Realises`: an edge of the graph joins the items of a prospect;
  * `rankedEdges_spec`: the graph has an edge for each prospect, and no operation
    on it is refused;
  * `take_spec`: the first edge with an open prospect is taken, and no other;
  * `tryPair_eq`, `pair_eq` put this together, and `pair_perm` says that the order of the
    candidates does not matter.
-/
import Mathlib.Data.List.Nodup
import Matchbook.Proofs.Flow.Cap
import Matchbook.Proofs.Flow.Placing
import Matchbook.Proofs.Related
import Matchbook.Proofs.Search.Prospect

namespace Matchbook.Search

open Matchbook.Flow

/-! ## Edges and prospects -/

/-- An edge that leads to one of the nodes `l` is a prospect. -/
structure Realises (l : List NodeKey) (g : Graph OrderItem) (entry : RankedEdge) (p : Prospect) :
    Prop where
  order : entry.candidate.data = p.order
  deal : entry.deal = p.deal
  opposingPrice : entry.opposingPrice = p.opposingPrice
  maxFlow : entry.candidate.maxFlow = 1
  edge : ∃ e, g.edge? entry.edge = some e ∧ e.sink ∈ l ∧ g.Bears true e.sink p.pair.item ∧
    g.Bears false e.source p.pair.opposing

theorem Realises.grows {l : List NodeKey} {g g' : Graph OrderItem} (hg : Grows g g')
    {entry : RankedEdge} {p : Prospect} (h : Realises l g entry p) : Realises l g' entry p := by
  obtain ⟨e, he, hl, hr, hc⟩ := h.edge
  obtain ⟨e', he', hs, ht⟩ := hg.edge he
  refine { h with edge := ⟨e', he', ?_⟩ }
  rw [hs, ht]
  exact ⟨hl, hg.bears hr, hg.bears hc⟩

/-- Edges are ranked as their prospects are. -/
theorem Realises.compare_eq {l : List NodeKey} {g : Graph OrderItem} {a b : RankedEdge}
    {p q : Prospect} (ha : Realises l g a p) (hb : Realises l g b q) (side : Side) :
    RankedEdge.compare side a b = Prospect.compare side p q := by
  rw [RankedEdge.compare, ha.deal, hb.deal, ha.opposingPrice, hb.opposingPrice, ha.order, hb.order]
  rfl

/-! ## Building the graph -/

/-- Building on top of a graph fails where finding the prospects does, and otherwise
    gives an edge for each of them; `K` is what holds of the graph then. -/
inductive Builds (l : List NodeKey) (g : Graph OrderItem) (K : Graph OrderItem → Prop) :
    Except Interruption (List RankedEdge × Graph OrderItem) →
      Except ArithmeticError (List Prospect) → Prop
  | failed (e : ArithmeticError) : Builds l g K (.error (.arithmetic e)) (.error e)
  | built {entries : List RankedEdge} {ps : List Prospect} {g' : Graph OrderItem}
      (realises : List.Forall₂ (Realises l g') entries ps) (sound : g'.Sound) (still : g'.Still)
      (grows : Grows g g') (keeps : K g') : Builds l g K (.ok (entries, g')) (.ok ps)

/-- The pairs can be linked: their nodes stand for the items, and no edge joins
    them. -/
structure Linkable (l : List NodeKey) (g : Graph OrderItem)
    (pairs : List ((NodeKey × OrderItem) × (NodeKey × OrderItem))) : Prop where
  candidate : ∀ p ∈ pairs, g.Bears false p.1.1 p.1.2
  root : ∀ p ∈ pairs, g.Bears true p.2.1 p.2.2 ∧ p.2.1 ∈ l
  apart : ∀ p ∈ pairs, ¬ g.Leads p.1.1 p.2.1
  nodup : (pairs.map fun p => (p.1.1, p.2.1)).Nodup

variable {l : List NodeKey} {g : Graph OrderItem} (chain : Chain)

theorem Linkable.tail {p : (NodeKey × OrderItem) × (NodeKey × OrderItem)}
    {pairs : List ((NodeKey × OrderItem) × (NodeKey × OrderItem))}
    (h : Linkable l g (p :: pairs)) : Linkable l g pairs where
  candidate q hq := h.candidate q (List.mem_cons_of_mem _ hq)
  root q hq := h.root q (List.mem_cons_of_mem _ hq)
  apart q hq := h.apart q (List.mem_cons_of_mem _ hq)
  nodup := (List.nodup_cons.1 h.nodup).2

/-- Linking the first pair leaves the others to be linked. -/
theorem Linkable.addEdge {p : (NodeKey × OrderItem) × (NodeKey × OrderItem)}
    {pairs : List ((NodeKey × OrderItem) × (NodeKey × OrderItem))}
    (h : Linkable l g (p :: pairs)) : Linkable l (g.addEdge p.1.1 p.2.1) pairs where
  candidate q hq := (Grows.addEdge g _ _).bears (h.tail.candidate q hq)
  root q hq := ⟨(Grows.addEdge g _ _).bears (h.tail.root q hq).1, (h.tail.root q hq).2⟩
  apart q hq hlead := by
    rcases Graph.leads_addEdge hlead with hlead | ⟨hc, hr⟩
    · exact h.tail.apart q hq hlead
    · refine (List.nodup_cons.1 h.nodup).1 (List.mem_map.2 ⟨q, hq, ?_⟩)
      rw [hc, hr]
  nodup := h.tail.nodup

theorem prospectsOf_cons (order : Order) (pair : ItemPair) (pairs : List ItemPair) :
    prospectsOf chain order (pair :: pairs) = do
      let p ← prospect? chain order pair
      let ps ← prospectsOf chain order pairs
      return p.toList ++ ps := by
  unfold prospectsOf
  rw [List.mapM_cons]
  cases prospect? chain order pair with
  | error e => rfl
  | ok p =>
    cases pairs.mapM (prospect? chain order) with
    | error e => rfl
    | ok ps => cases p <;> rfl

/-- Linking pairs gives an edge for each of their prospects. -/
theorem linkPairs_spec (c : Collection Order) (hc : c.maxFlow = 1) :
    ∀ {pairs : List ((NodeKey × OrderItem) × (NodeKey × OrderItem))} {g : Graph OrderItem},
      g.Sound → g.Still → Linkable l g pairs →
        Builds l g (SamePlaces g) (linkPairs chain c pairs g)
          (prospectsOf chain c.data (pairs.map fun p => ⟨p.2.2, p.1.2⟩))
  | [], g, hs, hst, _ => .built .nil hs hst (.refl g) (.refl g)
  | ((ck, ci), (rk, ri)) :: pairs, g, hs, hst, h => by
    -- a pair without a deal is passed over
    have hskip : Builds l g (SamePlaces g) (linkPairs chain c pairs g) do
        let ps ← prospectsOf chain c.data (pairs.map fun p => ⟨p.2.2, p.1.2⟩)
        return (none : Option Prospect).toList ++ ps := by
      have := linkPairs_spec c hc hs hst h.tail
      cases hps : prospectsOf chain c.data (pairs.map fun p => ⟨p.2.2, p.1.2⟩) <;> rw [hps] at this
      all_goals exact this
    rw [List.map_cons, prospectsOf_cons, linkPairs, prospect?]
    cases chain.accepts ri ci with
    | error e => exact .failed e
    | ok accepted =>
      cases accepted with
      | false => exact hskip
      | true =>
        simp only [compute, Except.mapError, ok_bind, Bool.not_true, Bool.false_eq_true, if_false]
        cases ri.crossingWith ci with
        | error e => exact .failed e
        | ok found =>
          cases found with
          | none => exact hskip
          | some deal =>
            have hmem : ((ck, ci), (rk, ri)) ∈ ((ck, ci), (rk, ri)) :: pairs := List.mem_cons_self
            obtain ⟨m, hm, -, -, hsink⟩ := (h.root _ hmem).1
            obtain ⟨n, hn, -, -, hsource⟩ := h.candidate _ hmem
            obtain ⟨hlink, hs'⟩ := hs.link_eq hm hsink hn hsource (h.apart _ hmem)
            have ih := linkPairs_spec c hc hs' (hst.addEdge ck rk) h.addEdge
            simp only [hlink, operate, ok_bind]
            cases ci.ramp.priceAt deal.timestamp with
            | error e => exact .failed e
            | ok price =>
              have hgrows := Grows.addEdge g ck rk
              have hedge : (g.addEdge ck rk).edge? g.edges.nextKey = some ⟨ck, rk, 0⟩ := by
                rw [Graph.edge?_addEdge, if_pos rfl]
              have hnew : Realises l (g.addEdge ck rk) ⟨g.edges.nextKey, c, deal, price⟩
                  ⟨c.data, ⟨ri, ci⟩, deal, price⟩ :=
                ⟨rfl, rfl, rfl, hc, _, hedge, (h.root _ hmem).2, hgrows.bears (h.root _ hmem).1,
                  hgrows.bears (h.candidate _ hmem)⟩
              simp only [ok_bind]
              generalize linkPairs chain c pairs (g.addEdge ck rk) = x at ih ⊢
              generalize prospectsOf chain c.data (pairs.map fun p => ⟨p.2.2, p.1.2⟩) = r at ih ⊢
              cases ih with
              | failed e => exact .failed e
              | built hr hs'' hst' hg hp =>
                exact .built (.cons (hnew.grows hg) hr) hs'' hst' (hgrows.trans hg)
                  ((SamePlaces.addEdge g ck rk).trans hp)

theorem map_nodePairs {γ : Type} (candidates roots : List (NodeKey × OrderItem))
    (f : (NodeKey × OrderItem) × (NodeKey × OrderItem) → γ) :
    (nodePairs candidates roots).map f =
      candidates.flatMap fun c => roots.map fun r => f (c, r) := by
  simp [nodePairs, List.map_flatMap, Function.comp_def]

theorem items_nodePairs (candidates roots : List (NodeKey × OrderItem)) :
    (nodePairs candidates roots).map (fun p => ItemPair.mk p.2.2 p.1.2) =
      itemPairs (candidates.map Prod.snd) (roots.map Prod.snd) := by
  simp [map_nodePairs, itemPairs, List.flatMap_map, Function.comp_def]

section Building

variable {roots : List (NodeKey × OrderItem)} {w : Network OrderItem Order}
  {ls : List (List NodeKey)} {o : LoadedOrder} {c : Collection Order}

/-- The items of an order that was just placed can be linked with the root's. -/
theorem linkable_nodePairs (hp : Placed w ls o false c g) (hs : w.graph.Sound)
    (hroots : ∀ r ∈ roots, w.graph.Bears true r.1 r.2 ∧ r.1 ∈ l)
    (hnodup : (roots.map Prod.fst).Nodup) : Linkable l g (nodePairs (c.itemNodes g) roots) := by
  have hmem : ∀ p ∈ nodePairs (c.itemNodes g) roots, p.1 ∈ c.itemNodes g ∧ p.2 ∈ roots := by
    intro p hp
    obtain ⟨x, hx, hp⟩ := List.mem_flatMap.1 hp
    obtain ⟨r, hr, rfl⟩ := List.mem_map.1 hp
    exact ⟨hx, hr⟩
  constructor
  case candidate =>
    intro p hp'
    exact hp.bears_of_mem (hmem p hp').1
  case root =>
    intro p hp'
    obtain ⟨hr, hl⟩ := hroots _ (hmem p hp').2
    exact ⟨hp.grows.bears hr, hl⟩
  case apart =>
    intro p hp'
    rw [hp.leads_iff]
    exact hs.not_leads (hp.node?_of_mem (hmem p hp').1)
  case nodup =>
    have hkeys : (nodePairs (c.itemNodes g) roots).map (fun p => (p.1.1, p.2.1)) =
        List.range' w.graph.nodes.length o.items.length ×ˢ roots.map Prod.fst := by
      rw [← hp.itemNodes_keys, map_nodePairs]
      show _ = List.product _ _
      simp [List.product, List.flatMap_map, Function.comp_def]
    rw [hkeys]
    exact List.Nodup.product List.nodup_range' hnodup

theorem prospects_cons (roots : List OrderItem) (o : LoadedOrder) (candidates : List LoadedOrder) :
    prospects chain roots (o :: candidates) =
      if o.order.numItems = 1 then do
        let ps ← prospectsOf chain o.order (itemPairs o.items roots)
        let more ← prospects chain roots candidates
        return ps ++ more
      else prospects chain roots candidates := by
  unfold prospects
  by_cases ho : o.order.numItems = 1
  · rw [List.filter_cons_of_pos (by simpa using ho), if_pos ho, List.mapM_cons]
    cases prospectsOf chain o.order (itemPairs o.items roots) with
    | error e => rfl
    | ok ps =>
      simp only [ok_bind]
      cases (candidates.filter (·.order.numItems == 1)).mapM fun c =>
        prospectsOf chain c.order (itemPairs c.items roots) <;> rfl
  · rw [List.filter_cons_of_neg (by simpa using ho), if_neg ho]

/-- Placing the candidates and linking them gives an edge for each prospect. -/
theorem rankedEdges_spec (hnodup : (roots.map Prod.fst).Nodup) :
    ∀ (candidates : List LoadedOrder) {w : Network OrderItem Order} {ls : List (List NodeKey)},
      w.Lists ls → w.graph.Sound → w.graph.Still →
        (∀ r ∈ roots, w.graph.Bears true r.1 r.2 ∧ r.1 ∈ l) →
          Builds l w.graph (fun g => ∃ cs ls', Network.Lists ⟨g, w.collections ++ cs⟩ (ls ++ ls'))
            (rankedEdges chain roots candidates w.graph)
            (prospects chain (roots.map Prod.snd) candidates)
  | [], w, ls, h, hs, hst, _ =>
    .built .nil hs hst (.refl _) ⟨[], [], by rw [List.append_nil, List.append_nil]; exact h⟩
  | o :: candidates, w, ls, h, hs, hst, hroots => by
    rw [prospects_cons, rankedEdges]
    by_cases ho : o.order.numItems = 1
    · rw [if_pos ho, if_neg (by simp [ho])]
      obtain ⟨c, g, hplace, hp⟩ := place_spec h o false
      have hmax : c.maxFlow = 1 := by
        rw [hp.maxFlow, ho]
        rfl
      have hlink := linkPairs_spec chain c hmax (hp.sound hs) (hp.still hst)
        (linkable_nodePairs hp hs hroots hnodup)
      rw [items_nodePairs, hp.data, hp.itemNodes_items] at hlink
      simp only [hplace, operate, ok_bind]
      generalize linkPairs chain c (nodePairs (c.itemNodes g) roots) g = x at hlink ⊢
      generalize prospectsOf chain o.order (itemPairs o.items (roots.map Prod.snd)) = r at hlink ⊢
      cases hlink with
      | failed e => exact .failed e
      | @built entries ps g' hr hs' hst' hg hplaces =>
        have hgrows := hp.grows.trans hg
        have ih := rankedEdges_spec hnodup candidates
          (w := ⟨g', w.collections ++ [c]⟩) (hp.lists.samePlaces hplaces) hs' hst' fun r hr =>
            ⟨hgrows.bears (hroots r hr).1, (hroots r hr).2⟩
        simp only [ok_bind]
        generalize rankedEdges chain roots candidates g' = x at ih ⊢
        generalize prospects chain (roots.map Prod.snd) candidates = r at ih ⊢
        cases ih with
        | failed e => exact .failed e
        | built hr' hs'' hst'' hg' hlists =>
          obtain ⟨cs, ls', hlists⟩ := hlists
          rw [List.append_assoc, List.append_assoc] at hlists
          exact .built (List.rel_append (hr.imp fun _ _ => .grows hg') hr') hs'' hst''
            (hgrows.trans hg') ⟨_, _, hlists⟩
    · rw [if_neg ho, if_pos (by simp [ho])]
      exact rankedEdges_spec hnodup candidates h hs hst hroots

end Building

/-! ## Choosing an edge -/

theorem take_of_full {root : Collection Order} (h : root.hasCapacity g = false)
    (entries : List RankedEdge) : take root entries g = .ok ⟨[], []⟩ := by
  cases entries with
  | nil => rfl
  | cons entry entries =>
    rw [take, h]
    rfl

/-- Where nothing flows, an edge takes a unit if its prospect is open. -/
theorem Realises.canPush_eq {entry : RankedEdge} {p : Prospect} (h : Realises l g entry p)
    (hs : g.Sound) (hst : g.Still) : g.canPush entry.edge = p.isOpen := by
  obtain ⟨e, he, -, ⟨t, ht, -, htc, -⟩, ⟨s, hs', -, hsc, -⟩⟩ := h.edge
  rw [Bool.eq_iff_iff, Graph.canPush_iff]
  simp only [he, Option.some.injEq, exists_eq_left', hst he, Nat.zero_lt_one, true_and, ht, hs',
    hs.flow_eq_zero hst ht, hs.flow_eq_zero hst hs', htc, hsc]
  rw [Prospect.isOpen, Bool.and_eq_true, decide_eq_true_eq, decide_eq_true_eq]
  exact and_comm

/-- The items at the ends of an edge are those of its prospect. -/
theorem Realises.pairOf_eq {entry : RankedEdge} {p : Prospect} (h : Realises l g entry p) :
    pairOf g entry.edge = .ok p.pair := by
  obtain ⟨e, he, -, ⟨t, ht, htd, -⟩, ⟨s, hs, hsd, -⟩⟩ := h.edge
  simp only [pairOf, he, ht, hs, htd, hsd]

/-- A unit that reaches one of its nodes fills a collection for one. -/
theorem hasCapacity_unitAlong {root : Collection Order} (hroot : root.Holds g l)
    (hmax : root.maxFlow = 1) (hs : g.Sound) {k : EdgeKey} {e : Edge} (he : g.edge? k = some e)
    (hl : e.sink ∈ l) : root.hasCapacity (g.unitAlong k e) = false := by
  have hflow : root.flow (g.unitAlong k e) =
      g.load l + ((if e.source ∈ l then 1 else 0) + if e.sink ∈ l then 1 else 0) := by
    rw [(hroot.samePlaces (.unitAlong g k e)).flow_eq, Graph.load_unitAlong hs he hroot.nodup]
  rw [if_pos hl] at hflow
  rw [Collection.hasCapacity, hmax, hflow, decide_eq_false_iff_not]
  omega

/-- **Choosing**: where nothing flows yet, the first edge with an open prospect is
    taken, and no other. -/
theorem take_spec {root : Collection Order} (hroot : root.Holds g l) (hmax : root.maxFlow = 1)
    (hs : g.Sound) (hst : g.Still)
    {entries : List RankedEdge} {ps : List Prospect} (h : List.Forall₂ (Realises l g) entries ps) :
    take root entries g = .ok (Prospect.settle (ps.find? Prospect.isOpen)) := by
  have hopen : ∀ c : Collection Order, c.maxFlow = 1 → c.hasCapacity g = true := by
    intro c hc
    rw [Collection.hasCapacity, hs.collection_flow_eq_zero hst, hc]
    rfl
  induction h with
  | nil => rfl
  | @cons entry p entries ps h _ ih =>
    rw [take, hopen root hmax, hopen entry.candidate h.maxFlow, h.canPush_eq hs hst]
    cases hp : p.isOpen with
    | false =>
      rw [List.find?_cons_of_neg (by simp [hp])]
      exact ih
    | true =>
      rw [List.find?_cons_of_pos hp]
      obtain ⟨e, he, hl, -⟩ := h.edge
      have hpush : g.pushUnit entry.edge = (.ok (), g.unitAlong entry.edge e) := by
        rcases g.pushUnit_eq entry.edge with ⟨e', he', -, hu⟩ | ⟨hn, -⟩
        · rw [he] at he'
          cases he'
          exact hu
        · rw [h.canPush_eq hs hst, hp] at hn
          cases hn
      have hpair := (h.grows (.unitAlong g entry.edge e)).pairOf_eq
      have hfull := take_of_full (hasCapacity_unitAlong hroot hmax hs he hl) entries
      simp only [hpush, operate, ok_bind, hpair, hfull, h.deal, Prospect.settle]
      rw [if_neg (by decide), if_neg (by decide)]
      rfl

/-! ## The search -/

/-- **Pairing**: the first open prospect is the match, and the graph refuses
    nothing. -/
theorem tryPair_eq (root : LoadedOrder) (candidates : List LoadedOrder) :
    tryPair chain root candidates =
      if root.order.numItems = 1 then compute do
        let ps ← prospects chain root.items candidates
        return Prospect.settle ((ps.mergeSort fun a b =>
          (Prospect.compare root.order.side a b).isLE).find? Prospect.isOpen)
      else .ok (.nothing (.notSingle root.order.numItems)) := by
  unfold tryPair
  by_cases hone : root.order.numItems = 1
  · rw [if_neg (by simp [hone]), if_pos hone]
    obtain ⟨c, g, hplace, hp⟩ := place_spec .empty root true
    have hmax : c.maxFlow = 1 := by
      rw [hp.maxFlow, hone]
      rfl
    have hnodup : ((c.itemNodes g).map Prod.fst).Nodup := by
      rw [hp.itemNodes_keys]
      exact List.nodup_range'
    have hbuilds := rankedEdges_spec (l := (c.itemNodes g).map Prod.fst) chain hnodup candidates
      (w := ⟨g, [c]⟩) hp.lists (hp.sound .empty) (hp.still nofun)
      fun r hr => ⟨hp.bears_of_mem hr, List.mem_map_of_mem hr⟩
    have hplace : root.place true Graph.empty = (.ok (), c, g) := hplace
    rw [hp.itemNodes_items] at hbuilds
    simp only [hplace, operate, ok_bind]
    generalize rankedEdges chain (c.itemNodes g) candidates g = x at hbuilds ⊢
    generalize prospects chain root.items candidates = r at hbuilds ⊢
    cases hbuilds with
    | failed e => rfl
    | @built entries ps g' hr hs hst _ hlists =>
      obtain ⟨cs, ls, hlists⟩ := hlists
      have hroot : c.Holds g' ((c.itemNodes g).map Prod.fst) := by
        rw [hp.itemNodes_keys]
        exact hlists.holds (i := 0) rfl rfl
      have hsorted := forall₂_mergeSort
        (r := fun a b => (RankedEdge.compare root.order.side a b).isLE)
        (s := fun a b => (Prospect.compare root.order.side a b).isLE)
        (fun ha hb => by rw [ha.compare_eq hb]) hr
      simp only [ok_bind, take_spec hroot hmax hs hst hsorted]
      rfl
  · rw [if_pos (by simpa using hone), if_neg hone]
    rfl

theorem orReport_compute (event : Failure → Event) (x : Except ArithmeticError Outcome) :
    orReport event (compute x) = x := by
  cases x <;> rfl

/-- Nothing is reported but what pairing gives. -/
theorem pair_eq (root : LoadedOrder) (candidates : List LoadedOrder) :
    pair chain root candidates =
      if root.order.numItems = 1 then do
        let ps ← prospects chain root.items candidates
        return Prospect.settle ((ps.mergeSort fun a b =>
          (Prospect.compare root.order.side a b).isLE).find? Prospect.isOpen)
      else .ok (.nothing (.notSingle root.order.numItems)) := by
  rw [pair, tryPair_eq]
  split
  · exact orReport_compute _ _
  · rfl

/-- **Pairing does not depend on the order of the candidates**, where these have
    different ids. -/
theorem pair_perm {chain : Chain} {root : LoadedOrder} {candidates candidates' : List LoadedOrder}
    (hp : candidates.Perm candidates') (hd : (candidates.map (·.order.id)).Nodup)
    {outcome : Outcome} (h : pair chain root candidates = .ok outcome) :
    pair chain root candidates' = .ok outcome := by
  rw [pair_eq] at h ⊢
  split at h
  · next hone =>
    rw [if_pos hone]
    obtain ⟨ps, hps, h⟩ := bind_eq_ok.1 h
    obtain ⟨ps', hps', hsort⟩ := prospects_perm root.order.side hp hd hps
    rw [hps', ok_bind, hsort]
    exact h
  · next hone =>
    rw [if_neg hone]
    exact h

end Matchbook.Search
