/-
  What a search does not depend on.

  * `searches_perm`: the order in which the candidates come;
  * `pair_mirrored`: the side from which two orders are paired.  The items, the deal
    and the name of the match are the same, with the items exchanged
    (`IsDeal.mirror`, `matchId_perm`), and there is nothing else to choose from, since
    an order for one token has a single item that stands for it (`IsDeal.unique`).
-/
import Matchbook.Proofs.Price.Tame
import Matchbook.Proofs.Record.Naming
import Matchbook.Proofs.Rule.Mirror
import Matchbook.Proofs.Search.Fill
import Matchbook.Proofs.Search.Optimal

namespace Matchbook

/-! ## Pairs -/

/-- The pair seen from the other side. -/
def ItemPair.swap (p : ItemPair) : ItemPair := ⟨p.opposing, p.item⟩

/-! ## Prices at a crossing -/

/-- Where the curves of two items cross, both have a price. -/
theorem OrderItem.exists_priceAt {i j : OrderItem} {d : Crossing}
    (h : i.crossingWith j = .ok (some d)) :
    (∃ p, i.ramp.priceAt d.timestamp = .ok p) ∧ ∃ p, j.ramp.priceAt d.timestamp = .ok p := by
  have hpays : ∀ {r s : PriceRamp}, PriceRamp.crossing [r] [s] = .ok (some d) →
      (∃ p, r.priceAt d.timestamp = .ok p) ∧ ∃ p, s.priceAt d.timestamp = .ok p := by
    intro r s h
    obtain ⟨-, ⟨paid, asked, hpaid, hasked, -⟩, -⟩ := PriceRamp.crossing_spec (by simp) (by simp) h
    rw [PriceRamp.sumAt_singleton] at hpaid hasked
    exact ⟨⟨paid, hpaid⟩, asked, hasked⟩
  unfold crossingWith at h
  split at h
  · exact hpays h
  · exact (hpays h).symm
  · cases h

namespace Search

open Matchbook.Flow

/-! ## The order of the candidates -/

/-- **The order of the candidates does not matter**, where these have different ids: a
    search that computes its outcome for one order of them computes the same for
    every other. -/
theorem searches_perm (chain : Chain) (root : LoadedOrder)
    {candidates candidates' : List LoadedOrder} (hp : candidates.Perm candidates')
    (hd : (candidates.map (·.order.id)).Nodup)
    (outcome : Outcome) :
    (pair chain root candidates = .ok outcome ↔ pair chain root candidates' = .ok outcome) ∧
      (fill chain root candidates = .ok outcome ↔ fill chain root candidates' = .ok outcome) := by
  have hd' : (candidates'.map (·.order.id)).Nodup := (hp.map _).nodup_iff.1 hd
  exact ⟨⟨pair_perm hp hd, pair_perm hp.symm hd'⟩, ⟨fill_perm hp hd, fill_perm hp.symm hd'⟩⟩

/-- The listings that fill an offer for two tokens may come the other way round. -/
theorem searches_perm_asks :
    let candidates := [askFor "7", askFor "8"]
    candidates.Perm candidates.reverse ∧ (candidates.map (·.order.id)).Nodup ∧
      ∀ outcome, (pair Chain.standard bundle candidates = .ok outcome ↔
          pair Chain.standard bundle candidates.reverse = .ok outcome) ∧
        (fill Chain.standard bundle candidates = .ok outcome ↔
          fill Chain.standard bundle candidates.reverse = .ok outcome) := by
  intro candidates
  have hperm : candidates.Perm candidates.reverse := (List.reverse_perm candidates).symm
  have hd : (candidates.map (·.order.id)).Nodup := by decide
  exact ⟨hperm, hd, searches_perm Chain.standard bundle hperm hd⟩

/-! ## The other side -/

section Mirror

variable {chain : Chain} {a b : LoadedOrder} {p q : Prospect}

/-- Two orders for one token have a single deal at most. -/
theorem IsDeal.unique (ha : a.Bound) (hb : b.Bound) (hp : IsDeal chain a [b] p)
    (hq : IsDeal chain a [b] q) : p.pair = q.pair ∧ p.deal = q.deal := by
  have hpos : ∀ {n : UInt32}, 1 ≤ n → 0 < n.toNat := fun h => UInt32.le_iff_toNat_le.1 h
  obtain ⟨c, hc, -, hsingle, hpb⟩ := hp.opposing_mem
  obtain ⟨c', hc', -, -, hqb⟩ := hq.opposing_mem
  obtain rfl := List.mem_singleton.1 hc
  obtain rfl := List.mem_singleton.1 hc'
  have hitem := ha.eq_of_mem hp.root_single hp.item_mem hq.item_mem (hpos hp.item_quantity)
    (hpos hq.item_quantity)
  have hopposing := hb.eq_of_mem hsingle hpb hqb (hpos hp.opposing_quantity)
    (hpos hq.opposing_quantity)
  have hdeal := hp.crossing
  rw [hitem, hopposing, hq.crossing, Except.ok.injEq, Option.some.injEq] at hdeal
  refine ⟨?_, hdeal.symm⟩
  calc p.pair = ⟨p.pair.item, p.pair.opposing⟩ := rfl
    _ = q.pair := by rw [hitem, hopposing]

variable (hchain : ∀ rule ∈ chain, rule.mirror ∈ chain)
  (hactive : ∀ i ∈ a.items ++ b.items, i.status = .validActive)
include hchain hactive

/-- A deal is one from the other side too. -/
theorem IsDeal.mirror (h : IsDeal chain a [b] p) :
    ∃ q, IsDeal chain b [a] q ∧ q.pair = p.pair.swap ∧ q.deal = p.deal := by
  obtain ⟨c, hc, -, hsingle, hb⟩ := h.opposing_mem
  obtain rfl := List.mem_singleton.1 hc
  obtain ⟨⟨price, hprice⟩, -⟩ := OrderItem.exists_priceAt h.crossing
  refine ⟨⟨a.order, p.pair.swap, p.deal, price⟩, ?_, rfl, rfl⟩
  exact ⟨hsingle, hb, ⟨a, List.mem_singleton_self a, rfl, h.root_single, h.item_mem⟩,
    h.opposing_quantity, h.item_quantity,
    (Chain.accepts_mirror hchain (hactive _ (List.mem_append_left _ h.item_mem))
      (hactive _ (List.mem_append_right _ hb))).2 h.accepted,
    (OrderItem.crossingWith_comm _ _).trans h.crossing, hprice⟩

/-- What can be computed from one side can be computed from the other. -/
theorem Computes.mirror {i j : OrderItem} (hi : i ∈ a.items) (hj : j ∈ b.items)
    (h : Computes chain ⟨i, j⟩) : Computes chain ⟨j, i⟩ := by
  have haccepts :
      ∀ {accepted}, chain.accepts j i = .ok accepted ↔ chain.accepts i j = .ok accepted :=
    Chain.accepts_mirror hchain (hactive i (List.mem_append_left _ hi))
      (hactive j (List.mem_append_right _ hj))
  constructor
  case accepts =>
    obtain ⟨accepted, h⟩ := h.accepts
    exact ⟨accepted, haccepts.2 h⟩
  case crossing =>
    intro haccepted
    obtain ⟨deal, hdeal⟩ := h.crossing (haccepts.1 haccepted)
    exact ⟨deal, (OrderItem.crossingWith_comm _ _).trans hdeal⟩
  case opposingPrice =>
    intro _ deal hdeal
    exact (OrderItem.exists_priceAt hdeal).2

end Mirror

/-- A search that overflows nowhere finds a deal, if there is one. -/
theorem pair_finds (chain : Chain) (root : LoadedOrder) (candidates : List LoadedOrder)
    (h : root.order.numItems = 1 → ∀ c ∈ candidates, c.order.numItems = 1 →
      ∀ r ∈ root.items, ∀ i ∈ c.items, Computes chain ⟨r, i⟩) :
    ∃ outcome, pair chain root candidates = .ok outcome ∧
      (outcome.records = [] ∧ (∀ p, ¬ IsDeal chain root candidates p) ∨
        ∃ p, IsDeal chain root candidates p ∧ outcome.records = [stampOneToOne p.pair p.deal]) := by
  rw [pair_eq]
  by_cases hone : root.order.numItems = 1
  · obtain ⟨ps, hps⟩ := exists_prospects (h hone)
    rw [if_pos hone, hps, ok_bind]
    refine ⟨_, rfl, ?_⟩
    cases hfind : (ps.mergeSort fun a b =>
        (Prospect.compare root.order.side a b).isLE).find? Prospect.isOpen with
    | none =>
      refine Or.inl ⟨rfl, fun p hp => ?_⟩
      obtain ⟨hmem, hopen⟩ := (isDeal_iff hps hone).1 hp
      exact absurd hopen (List.find?_eq_none.1 hfind p (List.mem_mergeSort.2 hmem))
    | some p =>
      obtain ⟨hmem, hopen, -⟩ := find?_mergeSort_le hfind
      exact Or.inr ⟨p, (isDeal_iff hps hone).2 ⟨hmem, hopen⟩, rfl⟩
  · rw [if_neg hone]
    exact ⟨_, rfl, Or.inl ⟨rfl, fun p hp => hone hp.root_single⟩⟩

/-- **Both sides discover the same match**: two orders with active items are paired from
    either side or from none, for the same deal and under the same name. -/
theorem pair_mirrored {a b : LoadedOrder} (ha : a.Bound) (hb : b.Bound)
    (hactive : ∀ i ∈ a.items ++ b.items, i.status = .validActive)
    (h : a.order.numItems = 1 → b.order.numItems = 1 →
      ∀ i ∈ a.items, ∀ j ∈ b.items, Computes Chain.standard ⟨i, j⟩) :
    ∃ outcome outcome', pair Chain.standard a [b] = .ok outcome ∧
      pair Chain.standard b [a] = .ok outcome' ∧
        (outcome.records = [] ∧ outcome'.records = [] ∨ ∃ id pair deal,
          outcome.records = [.oneToOne id pair deal] ∧
            outcome'.records = [.oneToOne id pair.swap deal]) := by
  have hactive' : ∀ i ∈ b.items ++ a.items, i.status = .validActive := fun i hi =>
    hactive i (List.perm_append_comm.subset hi)
  have hchain : ∀ rule ∈ Chain.standard, rule.mirror ∈ Chain.standard := fun _ =>
    Chain.mirror_mem_standard
  obtain ⟨outcome, houtcome, hfound⟩ := pair_finds Chain.standard a [b] (by simpa using h)
  obtain ⟨outcome', houtcome', hfound'⟩ := pair_finds Chain.standard b [a] (by
    simp only [List.mem_singleton, forall_eq]
    exact fun hb ha j hj i hi => (h ha hb i hi j hj).mirror hchain hactive hi hj)
  refine ⟨outcome, outcome', houtcome, houtcome', ?_⟩
  rcases hfound with ⟨hnone, hno⟩ | ⟨p, hp, hrecords⟩
  · rcases hfound' with ⟨hnone', -⟩ | ⟨q, hq, -⟩
    · exact Or.inl ⟨hnone, hnone'⟩
    · obtain ⟨p, hp, -⟩ := hq.mirror hchain hactive'
      exact absurd hp (hno p)
  · obtain ⟨q, hq, hpair, hdeal⟩ := hp.mirror hchain hactive
    rcases hfound' with ⟨-, hno⟩ | ⟨q', hq', hrecords'⟩
    · exact absurd hq (hno q)
    · obtain ⟨hpair', hdeal'⟩ := hq'.unique hb ha hq
      refine Or.inr ⟨_, p.pair, p.deal, hrecords, ?_⟩
      rw [hrecords', hpair', hdeal', hpair, hdeal]
      have hid : matchId [p.pair.opposing.id, p.pair.item.id] =
          matchId [p.pair.item.id, p.pair.opposing.id] := matchId_perm (.swap _ _ _)
      exact congrArg (fun id => [MatchRecord.oneToOne id p.pair.swap p.deal]) hid

/-- A listing and an offer for the same token discover each other. -/
theorem pair_mirrored_bid :
    let order := standingOrder "ask" "alice" .sell
    let ask : LoadedOrder := ⟨order, [onlyLine order]⟩
    let bid := bidAt "bid" 5
    ask.Bound ∧ bid.Bound ∧ (∀ i ∈ ask.items ++ bid.items, i.status = .validActive) ∧
      (∀ i ∈ ask.items, ∀ j ∈ bid.items, Computes Chain.standard ⟨i, j⟩) ∧
        (∃ p, IsDeal Chain.standard ask [bid] p) ∧
        ∃ outcome outcome', pair Chain.standard ask [bid] = .ok outcome ∧
          pair Chain.standard bid [ask] = .ok outcome' ∧
            (outcome.records = [] ∧ outcome'.records = [] ∨ ∃ id pair deal,
              outcome.records = [.oneToOne id pair deal] ∧
                outcome'.records = [.oneToOne id pair.swap deal]) := by
  intro order ask bid
  have haccepts : Chain.standard.accepts (onlyLine order) (onlyLine bid.order) = .ok true := by
    rw [← toOption_eq_some_iff]
    decide +kernel
  have hcrossing : (onlyLine order).crossingWith (onlyLine bid.order) =
      .ok (some ⟨.ofUInt64 5, 0⟩) := by
    rw [← toOption_eq_some_iff]
    decide +kernel
  have hask : ask.Bound := by decide
  have hbid : bid.Bound := by decide
  have hactive : ∀ i ∈ ask.items ++ bid.items, i.status = .validActive := by decide
  have hcomputes : ∀ i ∈ ask.items, ∀ j ∈ bid.items, Computes Chain.standard ⟨i, j⟩ := by
    intro i hi j hj
    obtain rfl := List.mem_singleton.1 hi
    obtain rfl := List.mem_singleton.1 hj
    refine ⟨⟨true, haccepts⟩, fun _ => ⟨_, hcrossing⟩, fun _ deal hdeal => ?_⟩
    exact (OrderItem.exists_priceAt hdeal).2
  obtain ⟨-, price, hprice⟩ := OrderItem.exists_priceAt hcrossing
  have hdeal : IsDeal Chain.standard ask [bid]
      ⟨bid.order, ⟨onlyLine order, onlyLine bid.order⟩, ⟨.ofUInt64 5, 0⟩, price⟩ :=
    ⟨rfl, List.mem_singleton_self _,
      ⟨bid, List.mem_singleton_self _, rfl, rfl, List.mem_singleton_self _⟩,
      UInt32.le_refl 1, UInt32.le_refl 1, haccepts, hcrossing, hprice⟩
  exact ⟨hask, hbid, hactive, hcomputes, ⟨_, hdeal⟩,
    pair_mirrored hask hbid hactive fun _ _ => hcomputes⟩

end Search
end Matchbook
