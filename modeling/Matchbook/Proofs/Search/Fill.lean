/-
  A filled order gets all that it asks for.

  * `Struck` is a deal that an order and the orders of the paired items agree to:
    all of them are open, and the offers pay what the listings ask;
  * `Stocked.isAllotment`: once as many units flow as the order is for, each of its
    items is paired once for each of its tokens, with items of different orders
    (`IsAllotment`);
  * `settle_spec`: what is read is stamped if it fills each item;
  * `fill_exact`: a filled order has one record, of such pairs and such a deal.
-/
import Matchbook.Proofs.Bundle.Verdict
import Matchbook.Proofs.Price.Crossing
import Matchbook.Proofs.Search.Failure
import Matchbook.Proofs.Search.Scan
import Matchbook.Proofs.Search.Units

namespace Matchbook

open PriceRamp (Pays Shared sumAt)

/-! ## The deal -/

/-- The curves of the offers among an order and the orders of the items paired with
    its own. -/
def Order.offers (order : Order) (pairs : List ItemPair) : List PriceRamp :=
  match order.side with
  | .buy => [order.ramp]
  | .sell => pairs.map (·.opposing.ramp)

/-- The curves of the listings among them. -/
def Order.listings (order : Order) (pairs : List ItemPair) : List PriceRamp :=
  match order.side with
  | .buy => pairs.map (·.opposing.ramp)
  | .sell => [order.ramp]

/-- The order and the orders of the paired items are open at the time of the deal, the
    offers together pay at least what the listings together ask, and this is the
    price. -/
structure Struck (order : Order) (pairs : List ItemPair) (deal : Crossing) : Prop where
  order_open : order.ramp.contains deal.timestamp = true
  opposing_open : ∀ p ∈ pairs, p.opposing.ramp.contains deal.timestamp = true
  pays : Pays (order.offers pairs) (order.listings pairs) deal.timestamp
  price : sumAt (order.listings pairs) deal.timestamp = .ok deal.price

/-- The curves on the two sides are those of the order and of the paired items. -/
theorem Order.mem_curves_iff {order : Order} {pairs : List ItemPair} {r : PriceRamp} :
    r ∈ order.offers pairs ++ order.listings pairs ↔
      r = order.ramp ∨ ∃ p ∈ pairs, p.opposing.ramp = r := by
  unfold offers listings
  cases order.side with
  | buy => simp
  | sell => simp [or_comm]

theorem stampOneToMany_eq {order : Order} {pairs : List ItemPair} (hne : pairs ≠ []) :
    stampOneToMany order pairs = do
      let deal ← PriceRamp.crossing (order.offers pairs) (order.listings pairs)
      return deal.map fun deal =>
        .oneToMany (matchId (pairs.flatMap fun p => [p.item.id, p.opposing.id])) pairs deal := by
  unfold stampOneToMany Order.offers Order.listings
  rw [if_neg (by simpa using hne)]
  cases order.side <;> rfl

/-- An order and paired items are stamped for a deal that is struck. -/
theorem stampOneToMany_eq_some {order : Order} {pairs : List ItemPair} {record : MatchRecord}
    (h : stampOneToMany order pairs = .ok (some record)) : ∃ deal,
      record = .oneToMany (matchId (pairs.flatMap fun p => [p.item.id, p.opposing.id])) pairs deal ∧
        Struck order pairs deal := by
  have hne : pairs ≠ [] := by
    rintro rfl
    cases h
  rw [stampOneToMany_eq hne] at h
  obtain ⟨deal, hdeal, h⟩ := bind_eq_ok.1 h
  obtain ⟨deal, rfl, rfl⟩ := Option.map_eq_some_iff.1 (pure_eq_ok.1 h)
  have hsides : order.offers pairs ≠ [] ∧ order.listings pairs ≠ [] := by
    unfold Order.offers Order.listings
    cases order.side <;> simpa using hne
  obtain ⟨hshared, hpays, hprice⟩ := PriceRamp.crossing_spec hsides.1 hsides.2 hdeal
  rw [PriceRamp.shared_iff_contains] at hshared
  exact ⟨deal, rfl, hshared _ (Order.mem_curves_iff.2 (Or.inl rfl)),
    fun p hp => hshared _ (Order.mem_curves_iff.2 (Or.inr ⟨p, hp, rfl⟩)), hpays, hprice⟩

namespace Search

open Matchbook.Flow

/-! ## The pairs -/

variable {chain : Chain} {root : LoadedOrder} {candidates placed : List LoadedOrder}
  {roots : List (NodeKey × OrderItem)} {g : Graph OrderItem}

/-- The pairs of the root items with the items that are read for them. -/
def pairsOf (filling : List (OrderItem × List OrderItem)) : List ItemPair :=
  filling.flatMap fun (root, opposing) => opposing.map (ItemPair.mk root)

theorem map_opposing_pairsOf (filling : List (OrderItem × List OrderItem)) :
    (pairsOf filling).map (·.opposing) = filling.flatMap Prod.snd := by
  simp [pairsOf, List.map_flatMap, Function.comp_def]

theorem map_item_pairsOf (filling : List (OrderItem × List OrderItem)) :
    (pairsOf filling).map (·.item) = filling.flatMap fun f => List.replicate f.2.length f.1 := by
  simp [pairsOf, List.map_flatMap, Function.comp_def]

theorem mem_pairsOf {filling : List (OrderItem × List OrderItem)} {p : ItemPair} :
    p ∈ pairsOf filling ↔ ∃ f ∈ filling, p.item = f.1 ∧ p.opposing ∈ f.2 := by
  simp only [pairsOf, List.mem_flatMap, List.mem_map]
  refine exists_congr fun f => and_congr_right fun _ => ⟨?_, ?_⟩
  · rintro ⟨i, hi, rfl⟩
    exact ⟨rfl, hi⟩
  · rintro ⟨hitem, hi⟩
    exact ⟨p.opposing, hi, by rw [← hitem]⟩

/-- The pairs give the root all that it asks for: each item as often as it stands for a
    token, by items of candidates for one token that the chain accepts, no two of them
    of one order. -/
structure IsAllotment (chain : Chain) (root : LoadedOrder) (candidates : List LoadedOrder)
    (pairs : List ItemPair) : Prop where
  length : pairs.length = root.order.numItems.toNat
  items : pairs.map (·.item) = root.items.flatMap fun i => List.replicate i.quantity.toNat i
  opposing_mem : ∀ p ∈ pairs, ∃ c ∈ candidates, c.order.id = p.opposing.orderId ∧
    c.order.numItems = 1 ∧ p.opposing ∈ c.items
  once : (pairs.map (·.opposing.orderId)).Nodup
  accepted : ∀ p ∈ pairs, chain.accepts p.item p.opposing = .ok true

/-- Where nothing flows yet, streaming to the end brings no more units than the cap. -/
theorem Wired.saturate {c : Collection Order} (h : Wired chain roots placed g) (hs : g.Sound)
    (hst : g.Still) (hholds : c.Holds g (roots.map Prod.fst)) :
    ∃ c' g', c.saturate g = (g'.load (roots.map Prod.fst), c', g') ∧ g'.Sound ∧
      Wired chain roots placed g' ∧ g'.load (roots.map Prod.fst) ≤ c.maxFlow := by
  have hload : g.load (roots.map Prod.fst) ≤ c.maxFlow := by
    rw [← hholds.flow_eq, hs.collection_flow_eq_zero hst]
    exact Nat.zero_le _
  obtain ⟨c', g', hsaturate, hstreams, hs', hcap⟩ :=
    Collection.saturate_spec hholds hs (h.noExit hs) hload
  exact ⟨c', g', hsaturate, hs', h.streams hstreams, hcap⟩

theorem map_fst_of_fed {filling : List (OrderItem × List OrderItem)}
    (hfed : List.Forall₂ (Fed g) roots filling) :
    filling.map Prod.fst = roots.map Prod.snd := by
  induction hfed with
  | nil => rfl
  | cons hf _ ih => rw [List.map_cons, List.map_cons, hf.item, ih]

/-- There are as many pairs as units reach the root's items. -/
theorem length_pairsOf (hs : g.Sound) {filling : List (OrderItem × List OrderItem)}
    (hfed : List.Forall₂ (Fed g) roots filling) :
    (pairsOf filling).length = g.load (roots.map Prod.fst) := by
  rw [← List.length_map (f := (·.opposing)), map_opposing_pairsOf, List.length_flatMap]
  induction hfed with
  | nil => rfl
  | @cons r f roots filling hf _ ih =>
    simp only [Graph.load, List.map_cons, List.sum_cons] at ih ⊢
    rw [ih, ← hf.opposing.length_eq, hs.length_carrying]

/-- **Allotting**: if as many units reach the root's items as the order is for, and the
    items that are read for each stand for as many tokens as it does, the pairs give the
    root all that it asks for. -/
theorem Stocked.isAllotment (h : Stocked chain roots placed g) (hs : g.Sound)
    (hkeys : (roots.map Prod.fst).Nodup) (hitems : roots.map Prod.snd = root.items)
    (hplaced : ∀ c ∈ placed, c ∈ candidates ∧ c.Bound ∧ c.order.numItems = 1)
    (hload : g.load (roots.map Prod.fst) = root.order.numItems.toNat)
    {filling : List (OrderItem × List OrderItem)} (hfed : List.Forall₂ (Fed g) roots filling)
    (hfilled : ∀ f ∈ filling, (f.2.map (·.quantity.toNat)).sum = f.1.quantity.toNat) :
    IsAllotment chain root candidates (pairsOf filling) := by
  have hsingle := fun c hc => (hplaced c hc).2
  have hdelivered : ∀ p ∈ pairsOf filling,
      (∃ c ∈ placed, p.opposing ∈ c.items) ∧ chain.accepts p.item p.opposing = .ok true := by
    intro p hp
    obtain ⟨f, hf, hitem, hopposing⟩ := mem_pairsOf.1 hp
    rw [hitem]
    exact (h.wired.fed hs hkeys hfed hf).2 _ hopposing
  constructor
  case length => rw [length_pairsOf hs hfed, hload]
  case items =>
    have hlength : ∀ f ∈ filling,
        List.replicate f.2.length f.1 = List.replicate f.1.quantity.toNat f.1 := by
      intro f hf
      obtain ⟨r, -, hrf⟩ := forall₂_mem_right hfed hf
      rw [← hfilled f hf, h.sum_quantity hs hsingle hrf.opposing]
    rw [map_item_pairsOf, ← hitems, ← map_fst_of_fed hfed, List.flatMap_map]
    exact List.flatMap_congr hlength
  case opposing_mem =>
    intro p hp
    obtain ⟨⟨c, hc, hmem⟩, -⟩ := hdelivered p hp
    obtain ⟨hc, hbound, hone⟩ := hplaced c hc
    exact ⟨c, hc, (hbound.orderId hmem).symm, hone, hmem⟩
  case once =>
    have honce := h.nodup_orderId hs hkeys hsingle hfed
    rwa [← map_opposing_pairsOf, List.map_map] at honce
  case accepted => exact fun p hp => (hdelivered p hp).2

/-! ## The record -/

/-- The items of a bundle that passes stand for as many tokens as the item that they
    fill. -/
theorem sum_of_isValid {item : OrderItem} {opposing : List OrderItem} {verdict : BundleVerdict}
    (h : chain.checkBundle item opposing = .ok verdict) (hvalid : verdict.isValid = true) :
    (opposing.map (·.quantity.toNat)).sum = item.quantity.toNat := by
  rcases Chain.checkBundle_spec h with ⟨hfills, -⟩ | ⟨-, reasons, rfl, -⟩
  · exact hfills.quantity
  · cases hvalid

/-- The items fill the root item. -/
def IsFilled (chain : Chain) (f : OrderItem × List OrderItem) : Prop :=
  ∃ verdict, chain.checkBundle f.1 f.2 = .ok verdict ∧ verdict.isValid = true

theorem firstUnfilled_eq_none_iff {filling : List (OrderItem × List OrderItem)} :
    firstUnfilled chain filling = .ok none ↔ ∀ f ∈ filling, IsFilled chain f := by
  induction filling with
  | nil => exact iff_of_true rfl nofun
  | cons f filling ih =>
    rw [List.forall_mem_cons, ← ih, firstUnfilled, bind_eq_ok]
    constructor
    · rintro ⟨verdict, hverdict, h⟩
      split at h
      · next hvalid => exact ⟨⟨verdict, hverdict, hvalid⟩, h⟩
      · cases h
    · rintro ⟨⟨verdict, hverdict, hvalid⟩, h⟩
      exact ⟨verdict, hverdict, by rwa [if_pos hvalid]⟩

/-- There is a record exactly if all items are filled and the pairs are stamped. -/
theorem settle_spec {order : Order} {filling : List (OrderItem × List OrderItem)}
    {outcome : Outcome} (h : settle chain order filling = .ok outcome) :
    ∃ found : Option MatchRecord, outcome.records = found.toList ∧ ∀ record, found = some record ↔
      (∀ f ∈ filling, IsFilled chain f) ∧
        stampOneToMany order (pairsOf filling) = .ok (some record) := by
  obtain ⟨unfilled, hunfilled, h⟩ := bind_eq_ok.1 h
  cases unfilled with
  | some item =>
    obtain rfl := pure_eq_ok.1 h
    refine ⟨none, rfl, fun record => iff_of_false nofun fun hfilled => ?_⟩
    rw [firstUnfilled_eq_none_iff.2 hfilled.1] at hunfilled
    cases hunfilled
  | none =>
    have hfilled := firstUnfilled_eq_none_iff.1 hunfilled
    obtain ⟨found, hfound, h⟩ := bind_eq_ok.1 h
    have hfound : stampOneToMany order (pairsOf filling) = .ok found := hfound
    refine ⟨found, ?_, fun record => ?_⟩
    · cases found with
      | none =>
        obtain rfl := pure_eq_ok.1 h
        rfl
      | some record =>
        obtain rfl := pure_eq_ok.1 h
        rfl
    · rw [hfound, Except.ok.injEq]
      exact (and_iff_right hfilled).symm

/-- What is stamped is the pairs that were read, if they fill the items, for a deal that
    is struck. -/
theorem settle_cases {order : Order} {filling : List (OrderItem × List OrderItem)}
    {outcome : Outcome} (h : settle chain order filling = .ok outcome) :
    outcome.records = [] ∨
      (∀ f ∈ filling, (f.2.map (·.quantity.toNat)).sum = f.1.quantity.toNat) ∧
        ∃ deal, Struck order (pairsOf filling) deal ∧ outcome.records =
          [.oneToMany (matchId ((pairsOf filling).flatMap fun p => [p.item.id, p.opposing.id]))
            (pairsOf filling) deal] := by
  obtain ⟨found, hrecords, hfound⟩ := settle_spec h
  cases found with
  | none => exact Or.inl hrecords
  | some record =>
    obtain ⟨hfilled, hstamped⟩ := (hfound record).1 rfl
    obtain ⟨deal, rfl, hstruck⟩ := stampOneToMany_eq_some hstamped
    refine Or.inr ⟨fun f hf => ?_, deal, hstruck, hrecords⟩
    obtain ⟨verdict, hverdict, hvalid⟩ := hfilled f hf
    exact sum_of_isValid hverdict hvalid

/-- The records of a filled order: none, or one for an order for several tokens that
    are all named, of pairs that give it all that it asks for and a deal that is
    struck. -/
def IsFill (chain : Chain) (root : LoadedOrder) (candidates : List LoadedOrder)
    (records : List MatchRecord) : Prop :=
  records = [] ∨ 1 < root.order.numItems ∧ (∀ i ∈ root.items, i.hasToken = true) ∧
    ∃ pairs deal, IsAllotment chain root candidates pairs ∧ Struck root.order pairs deal ∧
      records =
        [.oneToMany (matchId (pairs.flatMap fun p => [p.item.id, p.opposing.id])) pairs deal]

/-- The pairs that are read can be settled, if they are not too many. -/
theorem settle_failsOnly {E : ArithmeticError → Prop} {R : PriceRamp → Prop} {n : Nat}
    (h : Tame E R n) (hn : 2 ≤ n) (chain : Chain) {order : Order} (horder : R order.ramp)
    {filling : List (OrderItem × List OrderItem)}
    (hfilling : ∀ f ∈ filling, R f.1.ramp ∧ ∀ i ∈ f.2, R i.ramp)
    (hlen : (pairsOf filling).length < n) : FailsOnly E (settle chain order filling) := by
  have hpairs : ∀ p ∈ pairsOf filling, R p.opposing.ramp := by
    intro p hp
    obtain ⟨f, hf, -, hopposing⟩ := mem_pairsOf.1 hp
    exact (hfilling f hf).2 _ hopposing
  have hparts : ∀ f ∈ filling, f.2.length < n := by
    intro f hf
    have hcount : ((pairsOf filling).map (·.opposing)).length = (pairsOf filling).length :=
      List.length_map _
    rw [map_opposing_pairsOf, List.length_flatMap] at hcount
    exact Nat.lt_of_le_of_lt (hcount ▸ List.le_sum_of_mem (List.mem_map_of_mem hf)) hlen
  refine (h.firstUnfilled hn chain fun f hf =>
    ⟨(hfilling f hf).1, hparts f hf, (hfilling f hf).2⟩).bind fun unfilled _ => ?_
  cases unfilled with
  | some item => exact .ok _
  | none =>
    refine (h.stampOneToMany hlen horder hpairs).bind fun record _ => ?_
    cases record <;> exact .ok _

/-- **Filling is refused nothing** by the graph, whatever the candidates are, and computing
    fails as with as many ramps as the order is for, and its own. -/
theorem tryFill_ends {E : ArithmeticError → Prop} {R : PriceRamp → Prop} {n : Nat}
    (h : Tame E R n) (chain : Chain) (root : LoadedOrder) (hn : root.order.numItems.toNat < n)
    (horder : R root.order.ramp) (hitems : ∀ i ∈ root.items, R i.ramp)
    (hcandidates : ∀ c ∈ candidates, ∀ i ∈ c.items, R i.ramp) :
    Ends E (fun outcome => (∀ c ∈ candidates, c.Bound) → (candidates.map (·.order.id)).Nodup →
      IsFill chain root candidates outcome.records) (tryFill chain root candidates) := by
  unfold tryFill
  by_cases hmultiple : root.order.numItems ≤ 1
  · rw [if_pos hmultiple]
    exact .ok fun _ _ => Or.inl rfl
  by_cases hnamed : (!root.isFullySpecified) = true
  · rw [if_neg hmultiple, if_pos hnamed]
    exact .ok fun _ _ => Or.inl rfl
  rw [if_neg hmultiple, if_neg hnamed]
  have hmultiple := UInt32.not_le.1 hmultiple
  have htwo : 2 ≤ n := by
    have : 1 < root.order.numItems.toNat := UInt32.lt_iff_toNat_lt.1 hmultiple
    omega
  obtain ⟨c, g, hplace, hp⟩ := place_spec .empty root true
  have hkeys : ((c.itemNodes g).map Prod.fst).Nodup := by
    rw [hp.itemNodes_keys]
    exact List.nodup_range'
  have hroots : ∀ r ∈ c.itemNodes g, R r.2.ramp := fun r hr =>
    hitems r.2 (hp.itemNodes_items ▸ List.mem_map_of_mem hr)
  have hranking : ∀ i ∈ (c.itemNodes g).map (·.2), R i.ramp := hp.itemNodes_items ▸ hitems
  have hplace : root.place true Graph.empty = (.ok (), c, g) := hplace
  simp only [hplace, operate, ok_bind]
  refine (Ends.compute (h.rankedCandidates htwo chain hranking hcandidates _)).bind
    fun ranked hranked => ?_
  obtain ⟨hlinked, hids⟩ := rankedCandidates_spec hranked
  have hlinkedItems : ∀ o ∈ ranked.map Prod.snd, ∀ i ∈ o.items, R i.ramp := fun o ho =>
    hcandidates o (hlinked o ho).1
  have hstill : g.Still := hp.still fun he => by cases he
  refine (linkCandidates_spec hkeys _ (w := ⟨g, [c]⟩) hp.lists (hp.sound .empty) hstill (.init hp)
    fun o ho i hi r hr => h.accepts htwo chain (hroots r hr) (hlinkedItems o ho i hi)).bind ?_
  rintro g₁ ⟨hs₁, hst₁, hwired₁, cs, ls, hlists⟩
  have hholds : c.Holds g₁ ((c.itemNodes g).map Prod.fst) := by
    rw [hp.itemNodes_keys]
    exact hlists.holds (i := 0) rfl rfl
  obtain ⟨c', g₂, hsaturate, hs₂, hwired₂, hcap⟩ := hwired₁.saturate hs₁ hst₁ hholds
  simp only [hsaturate]
  split
  · exact .ok fun _ _ => Or.inl rfl
  · next hreached =>
    obtain ⟨filling, hfilling, hfed⟩ := flowedPairs_spec hs₂ (c.itemNodes g)
    have hload := Nat.le_antisymm (hp.maxFlow ▸ hcap) (Nat.le_of_not_lt hreached)
    have hramps : ∀ f ∈ filling, R f.1.ramp ∧ ∀ i ∈ f.2, R i.ramp := by
      intro f hf
      obtain ⟨⟨r, hr, hrf⟩, hopposing⟩ := hwired₂.fed hs₂ hkeys hfed hf
      refine ⟨hrf ▸ hroots r hr, fun i hi => ?_⟩
      obtain ⟨⟨o, ho, hi⟩, -⟩ := hopposing i hi
      exact hlinkedItems o ho i hi
    have hsettle := settle_failsOnly h htwo chain horder hramps
      (by rw [length_pairsOf hs₂ hfed, hload]; exact hn)
    simp only [hfilling, ok_bind]
    refine (Ends.compute hsettle).imp fun outcome houtcome hbound hd => ?_
    rcases settle_cases houtcome with hnone | ⟨hfilled, deal, hstruck, hrecords⟩
    · exact Or.inl hnone
    · have hsingles : Singles (ranked.map Prod.snd) :=
        ⟨fun o ho => hbound o (hlinked o ho).1, fun o ho => (hlinked o ho).2, hids hd⟩
      have hallotment := (hwired₂.stocked hsingles).isAllotment hs₂ hkeys hp.itemNodes_items
        (fun o ho => ⟨(hlinked o ho).1, hsingles.bound o ho, hsingles.one o ho⟩) hload hfed hfilled
      refine Or.inr ⟨hmultiple, ?_, _, deal, hallotment, hstruck, hrecords⟩
      simp only [LoadedOrder.isFullySpecified, Bool.not_eq_true', Bool.not_eq_false,
        Bool.and_eq_true, List.all_eq_true] at hnamed
      exact hnamed.2

/-- Filling is refused nothing by the graph. -/
theorem tryFill_gives (chain : Chain) (root : LoadedOrder) (hcandidates : ∀ c ∈ candidates, c.Bound)
    (hd : (candidates.map (·.order.id)).Nodup) :
    Gives (fun outcome => IsFill chain root candidates outcome.records)
      (tryFill chain root candidates) :=
  ((tryFill_ends (tame_overflow _) chain root (Nat.lt_succ_self _) trivial (fun _ _ => trivial)
    fun _ _ _ _ => trivial).imp fun _ h => h hcandidates hd).gives

/-- **Exact filling**: an order is filled by one record at most, which gives it all that
    it asks for, once each, for a price that the offers can pay while all orders that
    take part are open. -/
theorem fill_exact (chain : Chain) (root : LoadedOrder) {candidates : List LoadedOrder}
    (hcandidates : ∀ c ∈ candidates, c.Bound)
    (hd : (candidates.map (·.order.id)).Nodup) {outcome : Outcome}
    (h : fill chain root candidates = .ok outcome) :
    IsFill chain root candidates outcome.records := by
  have hgives := tryFill_gives chain root hcandidates hd
  unfold fill at h
  generalize tryFill chain root candidates = x at h hgives
  match x with
  | .ok outcome' =>
    cases h
    exact hgives
  | .error (.arithmetic e) => cases h

/-- An offer for two tokens. -/
def bundle : LoadedOrder :=
  let order := { standingOrder "bundle" "alice" .buy with
    numItems := 2, startPrice := .ofUInt64 10, endPrice := .ofUInt64 10 }
  ⟨order, [.ofOrder order "first" "collection" (some "7") 1,
    .ofOrder order "second" "collection" (some "8") 1]⟩

/-- A listing of a token. -/
def askFor (token : String) : LoadedOrder :=
  let order := standingOrder ("ask " ++ token) "bob" .sell
  ⟨order, [.ofOrder order order.id "collection" (some token) 1]⟩

/-- An offer for two tokens has a record if both are listed. -/
theorem fill_bundle : ∃ outcome, fill Chain.standard bundle [askFor "7", askFor "8"] = .ok outcome ∧
    outcome.records.length = 1 := by
  have hranked : rankedCandidates Chain.standard .buy bundle.items [askFor "7", askFor "8"] =
      .ok [(⟨.ofUInt64 5, 0⟩, askFor "7"), (⟨.ofUInt64 5, 0⟩, askFor "8")] := by
    have hfound : [askFor "7", askFor "8"].mapM (ranked? Chain.standard .buy bundle.items) =
        .ok [some (⟨.ofUInt64 5, 0⟩, askFor "7"), some (⟨.ofUInt64 5, 0⟩, askFor "8")] := by
      rw [← toOption_eq_some_iff]
      decide +kernel
    have hsingles : [askFor "7", askFor "8"].filter (·.order.numItems == 1) =
        [askFor "7", askFor "8"] := by decide
    rw [rankedCandidates_eq, hsingles, hfound, ok_bind]
    simp only [List.filterMap_cons, List.filterMap_nil, id]
    rw [List.mergeSort_of_pairwise (by decide +kernel)]
    rfl
  have hlength : (fill Chain.standard bundle [askFor "7", askFor "8"]).toOption.map
      (·.records.length) = some 1 := by
    have hplace : operate (bundle.place true .empty) = .ok ((), (bundle.place true .empty).2) := rfl
    have hitems : ((bundle.place true .empty).2.1.itemNodes (bundle.place true .empty).2.2).map
        (·.2) = bundle.items := by decide +kernel
    unfold fill tryFill
    rw [if_neg (by decide), if_neg (by decide), hplace]
    simp only [ok_bind]
    rw [hitems, show bundle.order.side = .buy from rfl, hranked]
    decide +kernel
  obtain ⟨outcome, houtcome, hlength⟩ := Option.map_eq_some_iff.1 hlength
  exact ⟨outcome, toOption_eq_some_iff.1 houtcome, hlength⟩

/-- An offer for two tokens is filled by their listings. -/
theorem fill_exact_bundle :
    let candidates := [askFor "7", askFor "8"]
    (∀ c ∈ candidates, c.Bound) ∧ (candidates.map (·.order.id)).Nodup ∧
      ∃ outcome, fill Chain.standard bundle candidates = .ok outcome ∧
        outcome.records.length = 1 ∧
          IsFill Chain.standard bundle candidates outcome.records := by
  intro candidates
  have hbound : ∀ c ∈ candidates, c.Bound := by decide
  have hd : (candidates.map (·.order.id)).Nodup := by decide
  obtain ⟨outcome, houtcome, hlength⟩ := fill_bundle
  exact ⟨hbound, hd, outcome, houtcome, hlength,
    fill_exact Chain.standard bundle hbound hd houtcome⟩

end Search
end Matchbook
