/-
  Where filling misses nothing.

  * `separate_of_carries`: the items of an order that all name different tokens share no
    candidate but those for any token of a collection;
  * `namedFirst_lineUp`: the units that name a token come first in the line, if all of them
    do or all candidates stand equally (`EquallyStanding`);
  * `assignable_line`: giving the candidates to the root's items is giving them the units of
    the line;
  * `fill_complete`: as many units flow as the order is for exactly if the candidates can be
    given to its items.  A candidate has to share a moment with the item, which an accepted
    one may not do if its window ends before it starts (`fill_incomplete`).
-/
import Matchbook.Proofs.Rule.Siblings
import Matchbook.Proofs.Search.Assignment
import Matchbook.Proofs.Search.Optimal
import Matchbook.Proofs.Search.Overflow
import Matchbook.Proofs.Search.Sharing

namespace Matchbook

namespace LoadedOrder

variable {c : LoadedOrder} {i : OrderItem}

/-- The only item of an order for one token is its unit. -/
theorem Bound.unit?_eq (h : c.Bound) (hone : c.order.numItems = 1) (hitem : c.items = [i]) :
    c.unit? = some i := by
  have htotal : i.quantity.toNat = 1 := by simpa [hone, hitem] using h.total
  simp [unit?, hitem, htotal]

theorem isOpen_of_single (hitem : c.items = [i]) : c.isOpen = !i.hasToken := by
  simp [isOpen, hitem]

end LoadedOrder

namespace Search

variable {chain : Chain} {root : LoadedOrder} {candidates : List LoadedOrder}
  {ranked : List (Crossing × LoadedOrder)}

/-! ## The root's items -/

/-- Items of one order that name different tokens, or tokens of different collections, are
    apart for the standard chain. -/
theorem separate_of_carries (hcarries : ∀ i ∈ root.items, i.Carries root.order)
    (hnamed : ∀ i ∈ root.items, i.hasToken = true)
    (hdistinct : (root.items.map fun i => (i.collection, i.tokenId)).Nodup) :
    Separate Chain.standard (numbered root.items) := by
  constructor
  case nodup =>
    rw [map_fst_numbered]
    exact List.nodup_range
  case named =>
    intro r r' i hr hr' hi hadmits hadmits'
    obtain ⟨hcollection, -, htoken⟩ := Chain.standard_accepts (Chain.admits_iff.1 hadmits)
    obtain ⟨hcollection', -, htoken'⟩ := Chain.standard_accepts (Chain.admits_iff.1 hadmits')
    obtain ⟨t, ht⟩ := Option.isSome_iff_exists.1 hi
    have hid : ∀ {r}, r ∈ numbered root.items →
        (∀ s t, r.2.token? = some s → i.token? = some t → s = t) → r.2.tokenId = some t := by
      intro r hr htoken
      obtain ⟨s, hs⟩ := Option.isSome_iff_exists.1 (hnamed r.2 (mem_of_mem_numbered hr))
      rw [OrderItem.tokenId_of_token? hs, htoken s t hs ht]
    have hnodup : ((numbered root.items).map fun r => (r.2.collection, r.2.tokenId)).Nodup := by
      rw [← map_snd_numbered root.items, List.map_map] at hdistinct
      exact hdistinct
    refine List.inj_on_of_nodup_map hnodup hr hr' (Prod.ext ?_ ?_)
    · exact hcollection.trans hcollection'.symm
    · exact (hid hr htoken).trans (hid hr' htoken').symm
  case unnamed =>
    intro r r' i j hr hr' hi hj hadmits hadmits' hother
    obtain ⟨hcollection, hamount, -⟩ := Chain.standard_accepts (Chain.admits_iff.1 hadmits)
    obtain ⟨hcollection', hamount', -⟩ := Chain.standard_accepts (Chain.admits_iff.1 hadmits')
    rw [Chain.admits_iff] at hother ⊢
    refine Chain.accepts_of_carries (hcarries _ (mem_of_mem_numbered hr))
      (hcarries _ (mem_of_mem_numbered hr')) (hcollection.trans hcollection'.symm)
      (hamount.trans hamount'.symm) ?_ hother
    intro s t _ ht
    simp [OrderItem.hasToken, ht] at hj

/-! ## What suits -/

/-- Some item of the candidate is accepted for the root item. -/
def Accepted (chain : Chain) (r : OrderItem) (c : LoadedOrder) : Prop :=
  ∃ i ∈ c.items, chain.accepts r i = .ok true

/-- Some item of the candidate is accepted for the root item and shares a moment with it. -/
def Met (chain : Chain) (r : OrderItem) (c : LoadedOrder) : Prop :=
  ∃ i ∈ c.items, chain.accepts r i = .ok true ∧ overlaps r i = true

/-- A candidate stands if it meets some root item. -/
theorem isStanding_iff_met {roots : List OrderItem} {c : LoadedOrder} :
    isStanding chain roots c = true ↔ ∃ r ∈ roots, Met chain r c := by
  simp only [isStanding_iff, Bool.and_eq_true, Chain.admits_iff, Met]
  constructor
  · rintro ⟨i, hi, r, hr, hmet⟩
    exact ⟨r, hr, i, hi, hmet⟩
  · rintro ⟨r, hr, i, hi, hmet⟩
    exact ⟨i, hi, r, hr, hmet⟩

/-- Items whose windows do not end before they start share a moment if they are
    accepted. -/
theorem overlaps_of_accepts {r i : OrderItem} (h : Chain.standard.accepts r i = .ok true)
    (hr : r.startTime ≤ r.endTime) (hi : i.startTime ≤ i.endTime) : overlaps r i = true := by
  have hpasses : ∀ rule : Rule, rule.check r i = .ok none := fun rule =>
    Chain.accepts_iff.1 h rule (Rule.mem_all rule)
  have hend := of_decide_eq_true (Rule.require_eq_none.1 (hpasses .endTime))
  have hstart := of_decide_eq_true (Rule.require_eq_none.1 (hpasses .startTime))
  exact decide_eq_true
    (Std.le_min_iff.2 ⟨Std.max_le_iff.2 ⟨hr, hstart⟩, Std.max_le_iff.2 ⟨hend, hi⟩⟩)

/-- All items of an order share the same moments with a candidate. -/
theorem overlaps_of_carries {order : Order} {r r' : OrderItem} (hr : r.Carries order)
    (hr' : r'.Carries order) (i : OrderItem) : overlaps r i = overlaps r' i := by
  rw [overlaps, overlaps, hr.window.1, hr.window.2, hr'.window.1, hr'.window.2]

/-! ## The line -/

/-- All standings of the candidates are as good: they have the same price and time. -/
def EquallyStanding (chain : Chain) (roots : List OrderItem) (candidates : List LoadedOrder) :
    Prop :=
  ∀ c ∈ candidates, ∀ c' ∈ candidates, ∀ d d', Stands chain roots c d → Stands chain roots c' d' →
    d.price.compare d'.price = .eq ∧ d.timestamp = d'.timestamp

/-- Candidates that have one price at the first moment that they share with the root stand
    equally. -/
theorem equallyStanding_of_price {roots : List OrderItem} {p : Decimal} {t : UInt64}
    (h : ∀ c ∈ candidates, ∀ i ∈ c.items, ∀ r ∈ roots,
      max r.startTime i.startTime = t ∧ i.ramp.priceAt t = .ok p) :
    EquallyStanding chain roots candidates := by
  have hone : ∀ c ∈ candidates, ∀ d, Stands chain roots c d → d.price = p ∧ d.timestamp = t := by
    rintro c hc d ⟨i, hi, r, hr, -, -, htime, hprice⟩
    obtain ⟨hfirst, hsame⟩ := h c hc i hi r hr
    rw [htime.trans hfirst, hsame] at hprice
    exact ⟨(Except.ok.inj hprice).symm, htime.trans hfirst⟩
  intro c hc c' hc' d d' hd hd'
  obtain ⟨hprice, htime⟩ := hone c hc d hd
  obtain ⟨hprice', htime'⟩ := hone c' hc' d' hd'
  rw [hprice, hprice', htime, htime']
  exact ⟨(Std.ReflCmp.compare_self : compare p p = .eq), rfl⟩

/-- The units of a line of single orders are their items. -/
theorem forall₂_unit? : ∀ {line : List LoadedOrder},
    (∀ c ∈ line, c.Bound ∧ c.order.numItems = 1 ∧ c.items.length = 1) →
      List.Forall₂ (fun c i => c ∈ line ∧ c.items = [i]) line (line.filterMap LoadedOrder.unit?)
  | [], _ => .nil
  | c :: line, h => by
    obtain ⟨⟨hbound, hone, hlength⟩, hline⟩ := List.forall_mem_cons.1 h
    obtain ⟨i, hi⟩ := List.length_eq_one_iff.1 hlength
    rw [List.filterMap_cons_some (hbound.unit?_eq hone hi)]
    exact .cons ⟨List.mem_cons_self, hi⟩
      ((forall₂_unit? hline).imp fun _ _ h => ⟨List.mem_cons_of_mem _ h.1, h.2⟩)

/-- Candidates that are ranked come from the given ones and stand. -/
theorem IsRanked.mem_lineUp {side : Side} {roots : List OrderItem} {c : LoadedOrder}
    (h : IsRanked chain side roots candidates ranked) (hc : c ∈ lineUp side ranked) :
    c ∈ candidates ∧ isStanding chain roots c = true := by
  rw [(lineUp_perm side ranked).mem_iff, h.candidates, List.mem_filter, Bool.and_eq_true] at hc
  exact ⟨hc.1, hc.2.2⟩

section Ranked

variable {side : Side} (hranked : IsRanked chain side root.items candidates ranked)
  (hsingle : ∀ c ∈ candidates, c.Bound ∧ c.order.numItems = 1 ∧ c.items.length = 1)
include hranked hsingle

/-- The units that name a token come first, if all of them do or all candidates stand
    equally. -/
theorem namedFirst_lineUp
    (hequal : (∀ c ∈ candidates, c.isOpen = false) ∨ EquallyStanding chain root.items candidates) :
    NamedFirst ((lineUp side ranked).filterMap LoadedOrder.unit?) := by
  have hline : (lineUp side ranked).Pairwise fun a b => a.isOpen = true → b.isOpen = true := by
    rcases hequal with hnamed | hequal
    · refine List.pairwise_of_forall_mem_list fun a ha b _ hopen => ?_
      cases (hnamed a (hranked.mem_lineUp ha).1).symm.trans hopen
    · refine pairwise_lineUp fun a ha b hb => ?_
      have hmem : ∀ {x}, x ∈ ranked → x.2 ∈ candidates := fun hx =>
        (List.mem_filter.1 (hranked.candidates ▸ List.mem_map_of_mem hx)).1
      obtain ⟨hprice, htime⟩ := hequal a.2 (hmem ha) b.2 (hmem hb) a.1 b.1
        (hranked.best a ha).stands (hranked.best b hb).stands
      rw [Side.rank, Ordering.then_eq_eq]
      exact ⟨Side.comparePrices_eq_eq_iff.2 hprice, Std.compare_eq_iff_eq.2 htime⟩
  have hunit : ∀ {c i}, c ∈ lineUp side ranked → c.unit? = some i → c.isOpen = !i.hasToken := by
    intro c i hc hi
    obtain ⟨hbound, hone, hlength⟩ := hsingle c (hranked.mem_lineUp hc).1
    obtain ⟨i', hi'⟩ := List.length_eq_one_iff.1 hlength
    rw [hbound.unit?_eq hone hi'] at hi
    exact LoadedOrder.isOpen_of_single (Option.some.inj hi ▸ hi')
  rw [NamedFirst, List.pairwise_filterMap]
  refine hline.imp_of_mem fun {a b} ha hb hopen i hi j hj hnone => ?_
  simpa [hunit hb hj] using hopen (by simp [hunit ha hi, hnone])

/-- Giving the candidates to the items of an order is giving them the units of the line. -/
theorem assignable_line (hcarries : ∀ i ∈ root.items, i.Carries root.order) :
    Assignable (Met chain) (numbered root.items) candidates ↔
      Assignable (fun r i => chain.admits r i) (numbered root.items)
        ((lineUp side ranked).filterMap LoadedOrder.unit?) := by
  have hstands : ∀ r ∈ numbered root.items, ∀ c ∈ candidates, Met chain r.2 c →
      (c.order.numItems == 1 && isStanding chain root.items c) = true := by
    intro r hr c hc hmet
    rw [(hsingle c hc).2.1, isStanding_iff_met.2 ⟨r.2, mem_of_mem_numbered hr, hmet⟩]
    rfl
  have hunits := forall₂_unit? fun c hc => hsingle c (hranked.mem_lineUp hc).1
  rw [← assignable_filter_iff hstands, ← hranked.candidates,
    ← assignable_perm_iff (lineUp_perm side ranked)]
  refine assignable_congr (fun r hr {c i} hci => ?_) hunits
  obtain ⟨hc, hitem⟩ := hci
  -- a candidate of the line shares a moment with some item of the root, so with all of them
  obtain ⟨r', hr', hmet⟩ := isStanding_iff_met.1 (hranked.mem_lineUp hc).2
  simp only [Met, hitem, List.mem_singleton, exists_eq_left, Chain.admits_iff] at hmet ⊢
  rw [overlaps_of_carries (hcarries r' hr') (hcarries r.2 (mem_of_mem_numbered hr))] at hmet
  exact and_iff_left hmet.2

end Ranked

/-! ## All that can be filled -/

/-- With moderate prices and windows nothing overflows. -/
theorem neverOverflows_of_moderate {P D n : Nat} (hD : 0 < D)
    (hbound : 3 * n * P * D < Decimal.coefficientBound) (hn : root.order.numItems.toNat < n)
    (horder : root.order.ramp.Moderate P D) (hitems : ∀ i ∈ root.items, i.ramp.Moderate P D)
    (hcandidates : ∀ c ∈ candidates, ∀ i ∈ c.items, i.ramp.Moderate P D) :
    NeverOverflows (fill chain root candidates) := by
  have hfails : FailsOnly (fun _ => False) (fill chain root candidates) :=
    orReport_failsOnly
      (tryFill_ends (tame_moderate hD hbound) chain root hn horder hitems hcandidates).fails
  exact fun e he => (hfails e he).elim

/-- What is settled is not reported as too few units. -/
theorem settle_ne_notFilled {order : Order} {filling : List (OrderItem × List OrderItem)}
    {total n : Nat} {numItems : UInt32} :
    settle chain order filling ≠ .ok (.nothing (.notFilled total numItems n)) := by
  intro h
  obtain ⟨unfilled, -, h⟩ := bind_eq_ok.1 h
  cases unfilled with
  | some item => cases h
  | none =>
    obtain ⟨found, -, h⟩ := bind_eq_ok.1 h
    cases found <;> cases h

/-- **No fill is missed** where no candidate is preferred that another item needs: let the
    items of an order for several tokens name different ones, and let the candidates, with
    one item for one token each, all name theirs or all stand equally.  Where nothing
    overflows, as many units flow as the order is for exactly if the candidates can be given
    to its items, each to one for which it is accepted and with which it shares a moment;
    else they are reported to be too few.  Where no window ends before it starts, being
    accepted is enough. -/
theorem fill_complete (root : LoadedOrder) {candidates : List LoadedOrder} (hroot : root.Bound)
    (hmultiple : 1 < root.order.numItems) (hcarries : ∀ i ∈ root.items, i.Carries root.order)
    (hnamed : ∀ i ∈ root.items, i.hasToken = true)
    (hdistinct : (root.items.map fun i => (i.collection, i.tokenId)).Nodup)
    (hsingle : ∀ c ∈ candidates, c.Bound ∧ c.order.numItems = 1 ∧ c.items.length = 1)
    (hequal : (∀ c ∈ candidates, c.isOpen = false) ∨
      EquallyStanding Chain.standard root.items candidates)
    (hfits : NeverOverflows (fill Chain.standard root candidates)) :
    ∃ total outcome, streamed Chain.standard root candidates = .ok total ∧
      fill Chain.standard root candidates = .ok outcome ∧
        (total < root.order.numItems.toNat ↔
          ∃ n, outcome = .nothing (.notFilled total root.order.numItems n)) ∧
        (total = root.order.numItems.toNat ↔
          Assignable (Met Chain.standard) (numbered root.items) candidates) ∧
        ((∀ i ∈ root.items, i.startTime ≤ i.endTime) →
          (∀ c ∈ candidates, ∀ i ∈ c.items, i.startTime ≤ i.endTime) →
            (total = root.order.numItems.toNat ↔
              Assignable (Accepted Chain.standard) (numbered root.items) candidates)) := by
  obtain ⟨outcome, htry, hfill⟩ := exists_tryFill hfits
  have hfull : root.isFullySpecified = true := by
    have hitems := (Order.bind_eq_ok_iff.1 hroot).2.1
    simpa [LoadedOrder.isFullySpecified, hitems] using hnamed
  obtain ⟨ranked, lots, hranked, rfl, hstreamed, hend⟩ :=
    tryFill_streamed hmultiple hfull (fun c hc => (hsingle c hc).1) htry
  have hcomplete := (greedy_complete hroot (separate_of_carries hcarries hnamed hdistinct)
    (namedFirst_lineUp hranked hsingle hequal)).trans
      (assignable_line hranked hsingle hcarries).symm
  refine ⟨_, outcome, hstreamed, hfill, ?_, hcomplete, fun hwindow hwindows => ?_⟩
  · rcases hend with ⟨hshort, hreported⟩ | ⟨henough, hsettle⟩
    · exact iff_of_true hshort hreported
    · refine iff_of_false (Nat.not_lt.2 henough.ge) ?_
      rintro ⟨n, rfl⟩
      exact settle_ne_notFilled hsettle
  · rw [hcomplete]
    refine assignable_congr (R := fun c c' => c = c' ∧ c ∈ candidates) ?_
      (List.forall₂_same.2 fun c hc => ⟨rfl, hc⟩)
    rintro r hr c _ ⟨rfl, hc⟩
    refine exists_congr fun i => and_congr_right fun hi => and_iff_left_of_imp fun haccepts => ?_
    exact overlaps_of_accepts haccepts (hwindow _ (mem_of_mem_numbered hr)) (hwindows c hc i hi)

/-- A listing of two tokens. -/
def pairAsk : LoadedOrder :=
  let order := { standingOrder "pair" "alice" .sell with
    numItems := 2, startPrice := .ofUInt64 10, endPrice := .ofUInt64 10 }
  ⟨order, [.ofOrder order "first" "collection" (some "7") 1,
    .ofOrder order "second" "collection" (some "8") 1]⟩

/-- An offer for a token, or any of the collection, in a window. -/
def bidOn (id : String) (token : Option String) (startTime endTime : UInt64) : LoadedOrder :=
  let order := { standingOrder id "bob" .buy with startTime, endTime }
  ⟨order, [.ofOrder order id "collection" token 1]⟩

/-- A listing of two tokens is filled by an offer for one of them and another for any, which
    does not take what the first one is for. -/
theorem fill_complete_bids :
    let candidates := [bidOn "any" none 0 10, bidOn "bid" (some "7") 0 10]
    pairAsk.Bound ∧ 1 < pairAsk.order.numItems ∧ (∀ i ∈ pairAsk.items, i.Carries pairAsk.order) ∧
      (∀ i ∈ pairAsk.items, i.hasToken = true) ∧
      (pairAsk.items.map fun i => (i.collection, i.tokenId)).Nodup ∧
      (∀ c ∈ candidates, c.Bound ∧ c.order.numItems = 1 ∧ c.items.length = 1) ∧
      EquallyStanding Chain.standard pairAsk.items candidates ∧
      NeverOverflows (fill Chain.standard pairAsk candidates) ∧
      Assignable (Met Chain.standard) (numbered pairAsk.items) candidates ∧
      streamed Chain.standard pairAsk candidates = .ok 2 := by
  intro candidates
  have hroot : pairAsk.Bound := by decide
  have hcarries : ∀ i ∈ pairAsk.items, i.Carries pairAsk.order := by decide
  have hnamed : ∀ i ∈ pairAsk.items, i.hasToken = true := by decide
  have hdistinct : (pairAsk.items.map fun i => (i.collection, i.tokenId)).Nodup := by decide
  have hsingle : ∀ c ∈ candidates, c.Bound ∧ c.order.numItems = 1 ∧ c.items.length = 1 := by decide
  have hequal : EquallyStanding Chain.standard pairAsk.items candidates := by
    refine equallyStanding_of_price (p := .ofUInt64 5) (t := 0) ?_
    simp only [← toOption_eq_some_iff]
    decide +kernel
  have hfits : NeverOverflows (fill Chain.standard pairAsk candidates) :=
    neverOverflows_of_moderate (P := 10) (D := 11) (n := 3) (by decide) (by decide) (by decide)
      (by decide) (by decide) (by decide)
  obtain ⟨total, -, hstreamed, -, -, hcomplete, -⟩ := fill_complete pairAsk hroot (by decide)
    hcarries hnamed hdistinct hsingle (.inr hequal) hfits
  have hmet : Assignable (Met Chain.standard) (numbered pairAsk.items) candidates := by
    refine ⟨[some 1, some 0], .cons (goesTo_some.2 ?_) (.cons (goesTo_some.2 ?_) .nil), by decide⟩
    all_goals
      simp only [Met, ← Chain.admits_iff]
      decide +kernel
  refine ⟨hroot, by decide, hcarries, hnamed, hdistinct, hsingle, hequal, hfits, hmet, ?_⟩
  rw [hstreamed, hcomplete.2 hmet]
  rfl

/-- A listing of two tokens is not filled by offers for them whose windows end before they
    start, though these are accepted: they share no moment with it. -/
theorem fill_incomplete :
    let candidates := [bidOn "bid 7" (some "7") 8 2, bidOn "bid 8" (some "8") 8 2]
    pairAsk.Bound ∧ 1 < pairAsk.order.numItems ∧ (∀ i ∈ pairAsk.items, i.Carries pairAsk.order) ∧
      (∀ i ∈ pairAsk.items, i.hasToken = true) ∧
      (pairAsk.items.map fun i => (i.collection, i.tokenId)).Nodup ∧
      (∀ c ∈ candidates, c.Bound ∧ c.order.numItems = 1 ∧ c.items.length = 1 ∧
        (∀ i ∈ c.items, i.Carries c.order) ∧ c.isOpen = false) ∧
      Assignable (Accepted Chain.standard) (numbered pairAsk.items) candidates ∧
      streamed Chain.standard pairAsk candidates = .ok 0 ∧
      fill Chain.standard pairAsk candidates = .ok (.nothing (.notFilled 0 2 0)) := by
  intro candidates
  have haccepted : Assignable (Accepted Chain.standard) (numbered pairAsk.items) candidates := by
    refine ⟨[some 0, some 1], .cons (goesTo_some.2 ?_) (.cons (goesTo_some.2 ?_) .nil), by decide⟩
    all_goals
      simp only [Accepted, ← Chain.admits_iff]
      decide +kernel
  have hranked : rankedCandidates Chain.standard .sell pairAsk.items candidates = .ok [] := by
    have hnone :
        candidates.mapM (ranked? Chain.standard .sell pairAsk.items) = .ok [none, none] := by
      rw [← toOption_eq_some_iff]
      decide +kernel
    have hsingles : candidates.filter (·.order.numItems == 1) = candidates := by decide
    rw [rankedCandidates_eq, hsingles, hnone, ok_bind]
    simp only [List.filterMap_cons, List.filterMap_nil, id, List.mergeSort_nil]
    rfl
  have hplace : operate (pairAsk.place true .empty) = .ok ((), (pairAsk.place true .empty).2) := rfl
  have hitems : ((pairAsk.place true .empty).2.1.itemNodes (pairAsk.place true .empty).2.2).map
      (·.2) = pairAsk.items := by decide +kernel
  refine ⟨by decide, by decide, by decide, by decide, by decide, by decide, haccepted, ?_, ?_⟩
  · unfold streamed
    rw [hplace, ok_bind]
    dsimp only
    rw [hitems, show pairAsk.order.side = .sell from rfl, hranked]
    rfl
  · unfold fill tryFill
    rw [if_neg (by decide), if_neg (by decide), hplace]
    simp only [ok_bind]
    rw [hitems, show pairAsk.order.side = .sell from rfl, hranked]
    rfl

end Search
end Matchbook
