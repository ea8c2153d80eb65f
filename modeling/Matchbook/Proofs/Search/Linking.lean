/-
  The graph in which an order for several tokens is filled.

  * `Ends`: a part of a search gives a value with a property unless a decimal
    overflows, and is refused nothing (`Gives`); it fails in certain ways only;
  * `Wired` is what such a graph is: its sources are items of the candidates that were
    placed, and its edges lead to the root's items from items that the chain accepts for
    them.  If the candidates are bound and no order comes twice, one candidate has one
    source with capacity at most (`Stocked`);
  * `linkCandidates_spec`: placing and linking candidates wires the graph;
  * `rankedCandidates_spec`: the candidates that are linked are some of those for one
    token, each once.
-/
import Matchbook.Proofs.Flow.Saturate
import Matchbook.Proofs.Order.Binding
import Matchbook.Proofs.Search.Filling
import Matchbook.Proofs.Search.Pairing

namespace Matchbook.Search

open Matchbook.Flow

/-! ## Unless a decimal overflows -/

/-- The computation gives a value with the property, unless a decimal overflows; no
    operation on a graph is refused. -/
def Gives {γ : Type} (P : γ → Prop) : Except Interruption γ → Prop
  | .ok a => P a
  | .error (.arithmetic _) => True
  | .error (.graph _) => False

/-- What is reported has the property, too: nothing was refused. -/
theorem Gives.orReport {P : Outcome → Prop} {x : Except Interruption Outcome} (h : Gives P x)
    {event : Failure → Event} {outcome : Outcome} (hx : orReport event x = .ok outcome) :
    P outcome := by
  match x, h with
  | .ok _, h =>
    cases hx
    exact h
  | .error (.arithmetic _), _ => cases hx

/-- Besides, computing fails in such ways only. -/
structure Ends (E : ArithmeticError → Prop) {γ : Type} (P : γ → Prop)
    (x : Except Interruption γ) : Prop where
  gives : Gives P x
  fails : ∀ e, x = .error (.arithmetic e) → E e

namespace Ends

variable {γ δ : Type} {P : γ → Prop} {Q : δ → Prop} {E : ArithmeticError → Prop}

theorem ok {a : γ} (h : P a) : Ends E P (.ok a) := ⟨h, nofun⟩

theorem error {e : ArithmeticError} (h : E e) : Ends E P (.error (.arithmetic e)) where
  gives := trivial
  fails := by
    rintro _ ⟨⟩
    exact h

theorem bind {x : Except Interruption γ} {f : γ → Except Interruption δ} (hx : Ends E P x)
    (hf : ∀ a, P a → Ends E Q (f a)) : Ends E Q (x >>= f) := by
  match x, hx with
  | .ok a, hx => exact hf a hx.gives
  | .error (.arithmetic e), hx => exact error (hx.fails e rfl)
  | .error (.graph _), hx => exact hx.gives.elim

theorem imp {P' : γ → Prop} {x : Except Interruption γ} (hx : Ends E P x) (h : ∀ a, P a → P' a) :
    Ends E P' x := by
  match x, hx with
  | .ok a, hx => exact ok (h a hx.gives)
  | .error (.arithmetic e), hx => exact error (hx.fails e rfl)
  | .error (.graph _), hx => exact hx.gives.elim

theorem compute {x : Except ArithmeticError γ} (hx : FailsOnly E x) :
    Ends E (x = .ok ·) (compute x) := by
  cases x with
  | error e => exact error (hx e rfl)
  | ok a => exact ok rfl

/-- The computation gives a value, or it fails in one of these ways. -/
theorem cases {x : Except Interruption γ} (hx : Ends E P x) :
    (∃ a, x = .ok a) ∨ ∃ e, x = .error (.arithmetic e) ∧ E e := by
  match x, hx with
  | .ok a, _ => exact Or.inl ⟨a, rfl⟩
  | .error (.arithmetic e), hx => exact Or.inr ⟨e, rfl, hx.fails e rfl⟩
  | .error (.graph _), hx => exact hx.gives.elim

end Ends

/-! ## Linking the items of one candidate -/

variable {chain : Chain} {l : List NodeKey} {g g' : Graph OrderItem} {E : ArithmeticError → Prop}

/-- More edges join the pairs that the chain accepts; the nodes are as before. -/
structure Linked (chain : Chain) (pairs : List ((NodeKey × OrderItem) × (NodeKey × OrderItem)))
    (g g' : Graph OrderItem) : Prop where
  sound : g'.Sound
  still : g'.Still
  places : SamePlaces g g'
  edge : ∀ {k e}, g'.edge? k = some e → g.edge? k = some e ∨
    ∃ p ∈ pairs, e.source = p.1.1 ∧ e.sink = p.2.1 ∧ chain.accepts p.2.2 p.1.2 = .ok true

theorem Linked.skip {p : (NodeKey × OrderItem) × (NodeKey × OrderItem)}
    {pairs : List ((NodeKey × OrderItem) × (NodeKey × OrderItem))} (h : Linked chain pairs g g') :
    Linked chain (p :: pairs) g g' where
  sound := h.sound
  still := h.still
  places := h.places
  edge he := (h.edge he).imp_right fun ⟨q, hq, hq'⟩ => ⟨q, List.mem_cons_of_mem _ hq, hq'⟩

theorem linkAccepted_spec :
    ∀ {pairs : List ((NodeKey × OrderItem) × (NodeKey × OrderItem))} {g : Graph OrderItem},
      g.Sound → g.Still → Linkable l g pairs →
        (∀ p ∈ pairs, FailsOnly E (chain.accepts p.2.2 p.1.2)) →
          Ends E (Linked chain pairs g) (linkAccepted chain pairs g)
  | [], g, hs, hst, _, _ => .ok ⟨hs, hst, .refl g, Or.inl⟩
  | ((ck, ci), (rk, ri)) :: pairs, g, hs, hst, h, hE => by
    have hmem : ((ck, ci), (rk, ri)) ∈ ((ck, ci), (rk, ri)) :: pairs := List.mem_cons_self
    have hrest : ∀ p ∈ pairs, FailsOnly E (chain.accepts p.2.2 p.1.2) := fun p hp =>
      hE p (List.mem_cons_of_mem _ hp)
    refine (Ends.compute (hE _ hmem)).bind fun accepted haccepts => ?_
    cases accepted with
    | false => exact (linkAccepted_spec hs hst h.tail hrest).imp fun _ => .skip
    | true =>
      obtain ⟨m, hm, -, -, hsink⟩ := (h.root _ hmem).1
      obtain ⟨n, hn, -, -, hsource⟩ := h.candidate _ hmem
      obtain ⟨hlink, hs'⟩ := hs.link_eq hm hsink hn hsource (h.apart _ hmem)
      simp only [if_true, hlink, operate, ok_bind]
      refine (linkAccepted_spec hs' (hst.addEdge ck rk) h.addEdge hrest).imp fun g' hg' => ?_
      have hg' := hg'.skip (p := ((ck, ci), (rk, ri)))
      refine ⟨hg'.sound, hg'.still, (SamePlaces.addEdge g ck rk).trans hg'.places, fun he => ?_⟩
      rcases hg'.edge he with he | hnew
      · rcases Graph.edge?_addEdge_cases he with ⟨-, rfl⟩ | he
        · exact Or.inr ⟨_, hmem, rfl, rfl, haccepts⟩
        · exact Or.inl he
      · exact Or.inr hnew

/-! ## Placing and linking candidates -/

/-- The graph has the root's items as sinks and items of the placed candidates as
    sources, one with capacity for each candidate at most; its edges join items that
    the chain accepts. -/
structure Stocked (chain : Chain) (roots : List (NodeKey × OrderItem)) (placed : List LoadedOrder)
    (g : Graph OrderItem) : Prop where
  root : ∀ r ∈ roots, g.Bears true r.1 r.2
  source : ∀ {k i}, g.Bears false k i → ∃ c ∈ placed, i ∈ c.items
  alone : ∀ {k k' i i'}, g.Bears false k i → g.Bears false k' i' → i.orderId = i'.orderId →
    0 < i.quantity.toNat → 0 < i'.quantity.toNat → k = k'
  edge : ∀ {k e}, g.edge? k = some e → ∃ r i, (e.sink, r) ∈ roots ∧ g.Bears false e.source i ∧
    chain.accepts r i = .ok true

/-- The candidates are bound and for one token, and no order comes twice. -/
structure Singles (placed : List LoadedOrder) : Prop where
  bound : ∀ o ∈ placed, o.Bound
  one : ∀ o ∈ placed, o.order.numItems = 1
  nodup : (placed.map (·.order.id)).Nodup

/-- The graph is stocked, but one candidate may have several sources with capacity, if the
    candidates are not bound for one token each or an order comes twice. -/
structure Wired (chain : Chain) (roots : List (NodeKey × OrderItem)) (placed : List LoadedOrder)
    (g : Graph OrderItem) : Prop where
  root : ∀ r ∈ roots, g.Bears true r.1 r.2
  source : ∀ {k i}, g.Bears false k i → ∃ c ∈ placed, i ∈ c.items
  alone : Singles placed → ∀ {k k' i i'}, g.Bears false k i → g.Bears false k' i' →
    i.orderId = i'.orderId → 0 < i.quantity.toNat → 0 < i'.quantity.toNat → k = k'
  edge : ∀ {k e}, g.edge? k = some e → ∃ r i, (e.sink, r) ∈ roots ∧ g.Bears false e.source i ∧
    chain.accepts r i = .ok true

variable {roots : List (NodeKey × OrderItem)} {placed : List LoadedOrder}

theorem Wired.stocked (h : Wired chain roots placed g) (hplaced : Singles placed) :
    Stocked chain roots placed g := ⟨h.root, h.source, h.alone hplaced, h.edge⟩

theorem Stocked.wired (h : Stocked chain roots placed g) : Wired chain roots placed g :=
  ⟨h.root, h.source, fun _ => h.alone, h.edge⟩

/-- At first the root's items are all there is. -/
theorem Wired.init {root : LoadedOrder} {c : Collection Order}
    (hp : Placed .empty [] root true c g) : Wired chain (c.itemNodes g) [] g := by
  have hsource : ∀ {k i}, ¬ g.Bears false k i := by
    intro k i hk
    rcases hp.bears_cases hk with ⟨n, hn, -⟩ | ⟨_, -, -, ⟨⟩⟩
    simp [Network.empty, Graph.empty, Graph.node?] at hn
  constructor
  case root => exact fun r hr => hp.bears_of_mem hr
  case source => exact fun hk => absurd hk hsource
  case alone => exact fun _ _ _ _ _ hk => absurd hk hsource
  case edge =>
    intro k e he
    rw [Graph.edge?, hp.sameFlow.edges] at he
    cases he

/-- Units that pass do not change what there is. -/
theorem Wired.streams (h : Wired chain roots placed g) (hg : Streams g g') :
    Wired chain roots placed g' where
  root r hr := hg.places.bears_iff.2 (h.root r hr)
  source hk := h.source (hg.places.bears_iff.1 hk)
  alone hplaced _ _ _ _ hk hk' :=
    h.alone hplaced (hg.places.bears_iff.1 hk) (hg.places.bears_iff.1 hk')
  edge he := by
    obtain ⟨e, he, hs, ht⟩ := hg.edge he
    obtain ⟨r, i, hr, hi, haccepts⟩ := h.edge he
    rw [← hs, ← ht]
    exact ⟨r, i, hr, hg.places.bears_iff.2 hi, haccepts⟩

theorem Wired.linked {pairs : List ((NodeKey × OrderItem) × (NodeKey × OrderItem))}
    (h : Wired chain roots placed g) (hg : Linked chain pairs g g')
    (hpairs : ∀ p ∈ pairs, g.Bears false p.1.1 p.1.2 ∧ p.2 ∈ roots) :
    Wired chain roots placed g' where
  root r hr := hg.places.bears_iff.2 (h.root r hr)
  source hk := h.source (hg.places.bears_iff.1 hk)
  alone hplaced _ _ _ _ hk hk' :=
    h.alone hplaced (hg.places.bears_iff.1 hk) (hg.places.bears_iff.1 hk')
  edge he := by
    rcases hg.edge he with he | ⟨p, hp, hs, ht, haccepts⟩
    · obtain ⟨r, i, hr, hi, haccepts⟩ := h.edge he
      exact ⟨r, i, hr, hg.places.bears_iff.2 hi, haccepts⟩
    · rw [hs, ht]
      exact ⟨p.2.2, p.1.2, (hpairs p hp).2, hg.places.bears_iff.2 (hpairs p hp).1, haccepts⟩

section Placing

variable {w : Network OrderItem Order} {ls : List (List NodeKey)} {o : LoadedOrder}
  {c : Collection Order}

/-- An order can be placed beside others. -/
theorem Wired.place (h : Wired chain roots placed w.graph) (hp : Placed w ls o false c g) :
    Wired chain roots (placed ++ [o]) g := by
  constructor
  case root => exact fun r hr => hp.grows.bears (h.root r hr)
  case source =>
    intro k i hk
    rcases hp.bears_cases hk with hk | ⟨j, -, hi, -⟩
    · obtain ⟨p, hmem, hi⟩ := h.source hk
      exact ⟨p, List.mem_append_left _ hmem, hi⟩
    · exact ⟨o, by simp, List.mem_of_getElem? hi⟩
  case alone =>
    intro hsingles k k' i i' hk hk' hid hpos hpos'
    have hbound : o.Bound := hsingles.bound o (by simp)
    have hnodup := hsingles.nodup
    rw [List.map_append, List.nodup_append] at hnodup
    have hplaced : Singles placed := ⟨fun p hp => hsingles.bound p (List.mem_append_left _ hp),
      fun p hp => hsingles.one p (List.mem_append_left _ hp), hnodup.1⟩
    -- a source is one of before, or one of the order that was placed
    have hcases : ∀ {k i}, g.Bears false k i → (w.graph.Bears false k i ∧ i.orderId ≠ o.order.id) ∨
        ∃ j, k = w.graph.nodes.length + j ∧ o.items[j]? = some i ∧ i.orderId = o.order.id := by
      intro k i hk
      rcases hp.bears_cases hk with hk | ⟨j, hj, hi, -⟩
      · obtain ⟨p, hmem, hi⟩ := h.source hk
        rw [(hplaced.bound p hmem).orderId hi]
        exact Or.inl ⟨hk, hnodup.2.2 _ (List.mem_map_of_mem hmem) _ (by simp)⟩
      · exact Or.inr ⟨j, hj, hi, hbound.orderId (List.mem_of_getElem? hi)⟩
    rcases hcases hk with ⟨hk, hne⟩ | ⟨j, rfl, hi, heq⟩ <;>
      rcases hcases hk' with ⟨hk', hne'⟩ | ⟨j', rfl, hi', heq'⟩
    · exact h.alone hplaced hk hk' hid hpos hpos'
    · exact absurd (hid.trans heq') hne
    · exact absurd (hid.symm.trans heq) hne'
    · rw [hbound.eq_of_pos (hsingles.one o (by simp)) hi hi' hpos hpos']
  case edge =>
    intro k e he
    rw [Graph.edge?, hp.sameFlow.edges] at he
    obtain ⟨r, i, hr, hi, haccepts⟩ := h.edge (k := k) he
    exact ⟨r, i, hr, hp.grows.bears hi, haccepts⟩

/-- **Wiring**: candidates can be placed and linked in any order, and nothing but the test
    of their items fails. -/
theorem linkCandidates_spec (hnodup : (roots.map Prod.fst).Nodup) :
    ∀ (candidates : List LoadedOrder) {placed : List LoadedOrder} {w : Network OrderItem Order}
      {ls : List (List NodeKey)}, w.Lists ls → w.graph.Sound → w.graph.Still →
        Wired chain roots placed w.graph →
          (∀ o ∈ candidates, ∀ i ∈ o.items, ∀ r ∈ roots, FailsOnly E (chain.accepts r.2 i)) →
            Ends E (fun g => g.Sound ∧ g.Still ∧ Wired chain roots (placed ++ candidates) g ∧
              ∃ cs ls', Network.Lists ⟨g, w.collections ++ cs⟩ (ls ++ ls'))
              (linkCandidates chain roots candidates w.graph)
  | [], placed, w, ls, h, hs, hst, hwired, _ =>
    .ok ⟨hs, hst, by rwa [List.append_nil], [], [], by rwa [List.append_nil, List.append_nil]⟩
  | o :: candidates, placed, w, ls, h, hs, hst, hwired, hE => by
    obtain ⟨c, g, hplace, hp⟩ := place_spec h o false
    have hlinkable := linkable_nodePairs (l := roots.map Prod.fst) hp hs
      (fun r hr => ⟨hwired.root r hr, List.mem_map_of_mem hr⟩) hnodup
    have hmem : ∀ p ∈ nodePairs (c.itemNodes g) roots, p.1.2 ∈ o.items ∧ p.2 ∈ roots := by
      intro p hmem
      obtain ⟨x, hx, hmem⟩ := List.mem_flatMap.1 hmem
      obtain ⟨r, hr, rfl⟩ := List.mem_map.1 hmem
      exact ⟨hp.itemNodes_items ▸ List.mem_map_of_mem hx, hr⟩
    rw [linkCandidates]
    simp only [hplace, operate, ok_bind]
    refine (linkAccepted_spec (hp.sound hs) (hp.still hst) hlinkable fun p hp =>
      hE o (by simp) _ (hmem p hp).1 _ (hmem p hp).2).bind fun g' hg' => ?_
    have hwired' := (hwired.place hp).linked hg' fun p hp =>
      ⟨hlinkable.candidate p hp, (hmem p hp).2⟩
    have ih := linkCandidates_spec hnodup candidates (w := ⟨g', w.collections ++ [c]⟩)
      (hp.lists.samePlaces hg'.places) hg'.sound hg'.still hwired'
      fun o ho => hE o (List.mem_cons_of_mem _ ho)
    refine ih.imp ?_
    rintro g'' ⟨hs'', hst'', hwired, cs, ls', hlists⟩
    rw [List.append_assoc, List.append_assoc] at hlists
    exact ⟨hs'', hst'', by simpa using hwired, _, _, hlists⟩

end Placing

/-! ## The candidates that are linked -/

theorem map_snd_sublist {side : Side} {items : List OrderItem} :
    ∀ {singles : List LoadedOrder} {found : List (Option (Crossing × LoadedOrder))},
      singles.mapM (ranked? chain side items) = .ok found →
        ((found.filterMap id).map Prod.snd).Sublist singles
  | [], found, h => by
    obtain rfl := pure_eq_ok.1 h
    exact .slnil
  | c :: singles, found, h => by
    rw [List.mapM_cons] at h
    obtain ⟨x, hx, h⟩ := bind_eq_ok.1 h
    obtain ⟨found, hfound, h⟩ := bind_eq_ok.1 h
    obtain rfl := pure_eq_ok.1 h
    have ih := map_snd_sublist hfound
    cases x with
    | none => exact ih.cons c
    | some x =>
      rw [List.filterMap_cons_some (f := id) rfl, List.map_cons, snd_eq_of_ranked? hx]
      exact ih.cons_cons c

/-- The candidates that are linked are some of those for one token, and no order is
    linked twice that does not come twice. -/
theorem rankedCandidates_spec {side : Side} {items : List OrderItem}
    {candidates : List LoadedOrder} {ranked : List (Crossing × LoadedOrder)}
    (h : rankedCandidates chain side items candidates = .ok ranked) :
    (∀ o ∈ ranked.map Prod.snd, o ∈ candidates ∧ o.order.numItems = 1) ∧
      ((candidates.map (·.order.id)).Nodup → ((ranked.map Prod.snd).map (·.order.id)).Nodup) := by
  rw [rankedCandidates_eq] at h
  obtain ⟨found, hfound, h⟩ := bind_eq_ok.1 h
  obtain rfl := pure_eq_ok.1 h
  have hperm := (List.mergeSort_perm (found.filterMap id)
    fun a b => (compareCandidates side a b).isLE).map Prod.snd
  have hsub := map_snd_sublist hfound
  refine ⟨fun o ho => ?_, fun hd => (hperm.map _).nodup_iff.2
    (hd.sublist ((hsub.trans List.filter_sublist).map _))⟩
  obtain ⟨hmem, hone⟩ := List.mem_filter.1 (hsub.subset (hperm.subset ho))
  exact ⟨hmem, by simpa using hone⟩

end Matchbook.Search
