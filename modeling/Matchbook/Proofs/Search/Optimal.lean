/-
  Pairing finds the best deal.

  * `IsDeal` is what there is to choose from: a pair of items, one of the root and
    one of a candidate, that the chain accepts and whose curves cross;
  * `Prospect.Better` is what makes one deal better than another for a side, and
    `Prospect.compare_eq_lt_iff` says that deals are tried in this order;
  * `pair_optimal`: the root is paired by a deal than which none is better, and by
    one alone; without a deal there is no record.
-/
import Mathlib.Data.String.Basic
import Matchbook.Proofs.Search.Scan

namespace Matchbook

/-! ## Better deals -/

/-- The first price is better than the second: a listing wants the higher price and
    an offer the lower one. -/
def Side.Prefers (side : Side) (a b : Decimal) : Prop :=
  match side with
  | .sell => b.compare a = .lt
  | .buy => a.compare b = .lt

theorem Side.comparePrices_eq_lt_iff {side : Side} {a b : Decimal} :
    side.comparePrices a b = .lt ↔ side.Prefers a b := by
  cases side <;> rfl

theorem Side.comparePrices_eq_eq_iff {side : Side} {a b : Decimal} :
    side.comparePrices a b = .eq ↔ a.compare b = .eq := by
  cases side with
  | buy => rfl
  | sell =>
    rw [comparePrices, ← Decimal.compare_def, ← Decimal.compare_def,
      Std.OrientedOrd.eq_swap (a := b), Ordering.swap_eq_eq]

namespace Search

/-- The first deal is better than the second: by its price, then by its time, then
    by the opposing order's own price, then by this order's id. -/
def Prospect.Better (side : Side) (p q : Prospect) : Prop :=
  side.Prefers p.deal.price q.deal.price ∨
    p.deal.price.compare q.deal.price = .eq ∧ (p.deal.timestamp < q.deal.timestamp ∨
      p.deal.timestamp = q.deal.timestamp ∧ (side.Prefers p.opposingPrice q.opposingPrice ∨
        p.opposingPrice.compare q.opposingPrice = .eq ∧ p.order.id < q.order.id))

theorem Prospect.compare_eq_lt_iff {side : Side} {p q : Prospect} :
    Prospect.compare side p q = .lt ↔ Prospect.Better side p q := by
  simp only [Prospect.compare, Side.rank, Ordering.then_eq_lt, Ordering.then_eq_eq,
    Side.comparePrices_eq_lt_iff, Side.comparePrices_eq_eq_iff, Std.compare_eq_lt,
    Std.compare_eq_iff_eq, compare_lt_iff_lt, Prospect.Better]
  tauto

/-! ## Deals -/

/-- What there is to choose from for a root order: a pair of one of its items with an
    item of a candidate, both orders being for one token and both items standing for
    a token, that the chain accepts and whose curves cross. -/
structure IsDeal (chain : Chain) (root : LoadedOrder) (candidates : List LoadedOrder)
    (p : Prospect) : Prop where
  root_single : root.order.numItems = 1
  item_mem : p.pair.item ∈ root.items
  opposing_mem : ∃ c ∈ candidates, c.order = p.order ∧ c.order.numItems = 1 ∧
    p.pair.opposing ∈ c.items
  item_quantity : 1 ≤ p.pair.item.quantity
  opposing_quantity : 1 ≤ p.pair.opposing.quantity
  accepted : chain.accepts p.pair.item p.pair.opposing = .ok true
  crossing : p.pair.item.crossingWith p.pair.opposing = .ok (some p.deal)
  opposingPrice : p.pair.opposing.ramp.priceAt p.deal.timestamp = .ok p.opposingPrice

/-- No computation on a pair of items overflows. -/
structure Computes (chain : Chain) (pair : ItemPair) : Prop where
  accepts : ∃ accepted, chain.accepts pair.item pair.opposing = .ok accepted
  crossing : chain.accepts pair.item pair.opposing = .ok true →
    ∃ deal, pair.item.crossingWith pair.opposing = .ok deal
  opposingPrice : chain.accepts pair.item pair.opposing = .ok true →
    ∀ deal, pair.item.crossingWith pair.opposing = .ok (some deal) →
      ∃ price, pair.opposing.ramp.priceAt deal.timestamp = .ok price

variable {chain : Chain} {root : LoadedOrder} {candidates : List LoadedOrder}

theorem prospect?_eq_some_iff {order : Order} {pair : ItemPair} {p : Prospect} :
    prospect? chain order pair = .ok (some p) ↔ p.order = order ∧ p.pair = pair ∧
      chain.accepts pair.item pair.opposing = .ok true ∧
        pair.item.crossingWith pair.opposing = .ok (some p.deal) ∧
          pair.opposing.ramp.priceAt p.deal.timestamp = .ok p.opposingPrice := by
  unfold prospect?
  constructor
  · intro h
    obtain ⟨accepted, haccepts, h⟩ := bind_eq_ok.1 h
    cases accepted with
    | false => cases h
    | true =>
      obtain ⟨deal, hdeal, h⟩ := bind_eq_ok.1 h
      cases deal with
      | none => cases h
      | some deal =>
        obtain ⟨price, hprice, h⟩ := bind_eq_ok.1 h
        cases h
        exact ⟨rfl, rfl, haccepts, hdeal, hprice⟩
  · rintro ⟨rfl, rfl, haccepts, hdeal, hprice⟩
    rw [haccepts, ok_bind, if_neg (by decide), hdeal, ok_bind]
    dsimp only
    rw [hprice]
    rfl

theorem Computes.prospect? {pair : ItemPair} (h : Computes chain pair) (order : Order) :
    ∃ p, prospect? chain order pair = .ok p := by
  unfold Search.prospect?
  obtain ⟨accepted, haccepts⟩ := h.accepts
  rw [haccepts, ok_bind]
  cases accepted with
  | false => exact ⟨none, rfl⟩
  | true =>
    obtain ⟨deal, hdeal⟩ := h.crossing haccepts
    rw [if_neg (by decide), hdeal, ok_bind]
    cases deal with
    | none => exact ⟨none, rfl⟩
    | some deal =>
      obtain ⟨price, hprice⟩ := h.opposingPrice haccepts deal hdeal
      dsimp only
      rw [hprice]
      exact ⟨_, rfl⟩

theorem mem_itemPairs {items roots : List OrderItem} {pair : ItemPair} :
    pair ∈ itemPairs items roots ↔ pair.opposing ∈ items ∧ pair.item ∈ roots := by
  simp only [itemPairs, List.mem_flatMap, List.mem_map]
  constructor
  · rintro ⟨i, hi, r, hr, rfl⟩
    exact ⟨hi, hr⟩
  · rintro ⟨hi, hr⟩
    exact ⟨_, hi, _, hr, rfl⟩

theorem mem_prospectsOf {order : Order} {pairs : List ItemPair} {ps : List Prospect}
    (h : prospectsOf chain order pairs = .ok ps) {p : Prospect} :
    p ∈ ps ↔ ∃ pair ∈ pairs, prospect? chain order pair = .ok (some p) := by
  obtain ⟨found, hfound, h⟩ := bind_eq_ok.1 h
  obtain rfl := pure_eq_ok.1 h
  rw [List.mem_filterMap, ← mem_mapM_iff hfound]
  simp

theorem mem_prospects {roots : List OrderItem} {ps : List Prospect}
    (h : prospects chain roots candidates = .ok ps) {p : Prospect} :
    p ∈ ps ↔ ∃ c ∈ candidates, c.order.numItems = 1 ∧
      ∃ pair ∈ itemPairs c.items roots, prospect? chain c.order pair = .ok (some p) := by
  obtain ⟨found, hfound, h⟩ := bind_eq_ok.1 h
  obtain rfl := pure_eq_ok.1 h
  obtain ⟨hall, -⟩ := (mapM_eq_ok_iff []).1 hfound
  rw [List.mem_flatten]
  constructor
  · rintro ⟨qs, hqs, hp⟩
    obtain ⟨c, hc, hqs⟩ := (mem_mapM_iff hfound).1 hqs
    obtain ⟨hc, hone⟩ := List.mem_filter.1 hc
    exact ⟨c, hc, by simpa using hone, (mem_prospectsOf hqs).1 hp⟩
  · rintro ⟨c, hc, hone, hp⟩
    have hmem : c ∈ candidates.filter (·.order.numItems == 1) :=
      List.mem_filter.2 ⟨hc, by simpa using hone⟩
    exact ⟨_, (mem_mapM_iff hfound).2 ⟨c, hmem, hall c hmem⟩, (mem_prospectsOf (hall c hmem)).2 hp⟩

theorem exists_prospects {roots : List OrderItem} (h : ∀ c ∈ candidates, c.order.numItems = 1 →
    ∀ r ∈ roots, ∀ i ∈ c.items, Computes chain ⟨r, i⟩) :
    ∃ ps, prospects chain roots candidates = .ok ps := by
  have hof : ∀ c ∈ candidates.filter (·.order.numItems == 1),
      ∃ ps, prospectsOf chain c.order (itemPairs c.items roots) = .ok ps := by
    intro c hc
    obtain ⟨hc, hone⟩ := List.mem_filter.1 hc
    obtain ⟨found, hfound⟩ := exists_mapM_of_forall (f := Search.prospect? chain c.order)
      (l := itemPairs c.items roots) fun pair hpair => by
        obtain ⟨hi, hr⟩ := mem_itemPairs.1 hpair
        exact (h c hc (by simpa using hone) pair.item hr pair.opposing hi).prospect? c.order
    exact ⟨_, bind_eq_ok.2 ⟨found, hfound, rfl⟩⟩
  obtain ⟨found, hfound⟩ := exists_mapM_of_forall hof
  exact ⟨_, bind_eq_ok.2 ⟨found, hfound, rfl⟩⟩

/-- The prospects are the deals, but for items that stand for no token. -/
theorem isDeal_iff {ps : List Prospect} (h : prospects chain root.items candidates = .ok ps)
    (hone : root.order.numItems = 1) {p : Prospect} :
    IsDeal chain root candidates p ↔ p ∈ ps ∧ p.isOpen = true := by
  have hopen : p.isOpen = true ↔ 1 ≤ p.pair.item.quantity ∧ 1 ≤ p.pair.opposing.quantity := by
    simp only [Prospect.isOpen, Bool.and_eq_true, decide_eq_true_eq, UInt32.le_iff_toNat_le]
    rfl
  rw [mem_prospects h, hopen]
  constructor
  · rintro ⟨-, hitem, ⟨c, hc, ho, hsingle, hopposing⟩, hq, hq', haccepted, hcrossing, hprice⟩
    exact ⟨⟨c, hc, hsingle, p.pair, mem_itemPairs.2 ⟨hopposing, hitem⟩,
      prospect?_eq_some_iff.2 ⟨ho.symm, rfl, haccepted, hcrossing, hprice⟩⟩, hq, hq'⟩
  · rintro ⟨⟨c, hc, hsingle, pair, hpair, hp⟩, hq, hq'⟩
    obtain ⟨ho, rfl, haccepted, hcrossing, hprice⟩ := prospect?_eq_some_iff.1 hp
    obtain ⟨hopposing, hitem⟩ := mem_itemPairs.1 hpair
    exact ⟨hone, hitem, ⟨c, hc, ho.symm, hsingle, hopposing⟩, hq, hq', haccepted, hcrossing, hprice⟩

/-! ## The choice -/

/-- **The best deal**: where nothing overflows, a root order that has deals is paired by
    one alone, than which none is better; else there is no record. -/
theorem pair_optimal (chain : Chain) (root : LoadedOrder) (candidates : List LoadedOrder)
    (h : root.order.numItems = 1 → ∀ c ∈ candidates, c.order.numItems = 1 →
      ∀ r ∈ root.items, ∀ i ∈ c.items, Computes chain ⟨r, i⟩) :
    ∃ outcome, pair chain root candidates = .ok outcome ∧
      ((∀ p, ¬ IsDeal chain root candidates p) → outcome.records = []) ∧
      ((∃ p, IsDeal chain root candidates p) → ∃ p, IsDeal chain root candidates p ∧
        outcome.records = [.oneToOne (matchId [p.pair.item.id, p.pair.opposing.id]) p.pair p.deal] ∧
          ∀ q, IsDeal chain root candidates q → ¬ q.Better root.order.side p) := by
  rw [pair_eq]
  by_cases hone : root.order.numItems = 1
  · obtain ⟨ps, hps⟩ := exists_prospects (h hone)
    rw [if_pos hone, hps, ok_bind]
    cases hfind : (ps.mergeSort fun a b =>
        (Prospect.compare root.order.side a b).isLE).find? Prospect.isOpen with
    | none =>
      have hnone : ∀ p, ¬ IsDeal chain root candidates p := by
        intro p hp
        obtain ⟨hmem, hopen⟩ := (isDeal_iff hps hone).1 hp
        exact absurd hopen (List.find?_eq_none.1 hfind p (List.mem_mergeSort.2 hmem))
      exact ⟨_, rfl, fun _ => rfl, fun ⟨p, hp⟩ => absurd hp (hnone p)⟩
    | some p =>
      obtain ⟨hmem, hopen, hbest⟩ := find?_mergeSort_le hfind
      have hp : IsDeal chain root candidates p := (isDeal_iff hps hone).2 ⟨hmem, hopen⟩
      refine ⟨_, rfl, fun hnone => absurd hp (hnone p),
        fun _ => ⟨p, hp, rfl, fun q hq hbetter => ?_⟩⟩
      obtain ⟨hqmem, hqopen⟩ := (isDeal_iff hps hone).1 hq
      exact hbest q hqmem hqopen (Prospect.compare_eq_lt_iff.2 hbetter)
  · rw [if_neg hone]
    exact ⟨_, rfl, fun _ => rfl, fun ⟨p, hp⟩ => absurd hp.root_single hone⟩

/-- An offer for one token that stays at a price. -/
def bidAt (id : String) (price : UInt64) : LoadedOrder :=
  let order := { standingOrder id id .buy with
    startPrice := .ofUInt64 price, endPrice := .ofUInt64 price }
  ⟨order, [onlyLine order]⟩

/-- A listing with two offers that pay its price is paired by a deal than which none is
    better. -/
theorem pair_optimal_bids :
    let ask := standingOrder "ask" "alice" .sell
    let root : LoadedOrder := ⟨ask, [onlyLine ask]⟩
    let candidates := [bidAt "low" 5, bidAt "high" 6]
    (∀ c ∈ candidates, ∀ r ∈ root.items, ∀ i ∈ c.items, Computes Chain.standard ⟨r, i⟩) ∧
      ∃ outcome p, pair Chain.standard root candidates = .ok outcome ∧
        IsDeal Chain.standard root candidates p ∧
          outcome.records =
            [.oneToOne (matchId [p.pair.item.id, p.pair.opposing.id]) p.pair p.deal] ∧
            ∀ q, IsDeal Chain.standard root candidates q → ¬ q.Better .sell p := by
  intro ask root candidates
  have hbid : ∀ b ∈ [bidAt "low" 5, bidAt "high" 6],
      Chain.standard.accepts (onlyLine ask) (onlyLine b.order) = .ok true ∧
        (onlyLine ask).crossingWith (onlyLine b.order) = .ok (some ⟨.ofUInt64 5, 0⟩) ∧
          (onlyLine b.order).ramp.priceAt 0 = .ok b.order.startPrice := by
    simp only [← toOption_eq_some_iff]
    decide +kernel
  have hcomputes : ∀ c ∈ candidates, ∀ r ∈ root.items, ∀ i ∈ c.items,
      Computes Chain.standard ⟨r, i⟩ := by
    intro c hc r hr i hi
    obtain ⟨haccepts, hcrossing, hprice⟩ := hbid c hc
    have hitems : ∀ c ∈ candidates, c.items = [onlyLine c.order] := by decide
    rw [hitems c hc, List.mem_singleton] at hi
    obtain rfl := List.mem_singleton.1 hr
    subst hi
    refine ⟨⟨true, haccepts⟩, fun _ => ⟨_, hcrossing⟩, fun _ deal hdeal => ?_⟩
    cases hcrossing.symm.trans hdeal
    exact ⟨_, hprice⟩
  obtain ⟨outcome, houtcome, -, hfound⟩ := pair_optimal Chain.standard root candidates
    fun _ c hc _ => hcomputes c hc
  obtain ⟨haccepts, hcrossing, hprice⟩ := hbid (bidAt "high" 6) (by simp)
  have hhigh : IsDeal Chain.standard root candidates ⟨(bidAt "high" 6).order,
      ⟨onlyLine ask, onlyLine (bidAt "high" 6).order⟩, ⟨.ofUInt64 5, 0⟩, .ofUInt64 6⟩ :=
    ⟨rfl, List.mem_singleton_self _, ⟨_, by simp [candidates], rfl, rfl, List.mem_singleton_self _⟩,
      by decide, by decide, haccepts, hcrossing, hprice⟩
  obtain ⟨p, hp, hrecords, hbest⟩ := hfound ⟨_, hhigh⟩
  exact ⟨hcomputes, outcome, p, houtcome, hp, hrecords, hbest⟩

end Search
end Matchbook
