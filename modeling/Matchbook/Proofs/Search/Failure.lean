/-
  How the parts of a search can fail that compute with prices.

  The ramps of the items are of a kind with which computing fails in certain ways only
  (`Tame`); so do then

  * the chain (`accepts`), and the test of an order (`isCompatible`);
  * the prospects of an order for one token (`prospects`);
  * the ranking of candidates (`rankedCandidates`), and the test of what fills an order and
    its record (`firstUnfilled`, `stampOneToMany`), as long as no more items fill it than
    there may be ramps.
-/
import Matchbook.Proofs.Price.Tame
import Matchbook.Proofs.Search.Filling
import Matchbook.Proofs.Search.Prospect
import Matchbook.Search.Run

namespace Matchbook.Tame

open Matchbook.Search

variable {E : ArithmeticError → Prop} {R : PriceRamp → Prop} {n : Nat} (h : Tame E R n)
include h

/-! ## Two items -/

section Two

variable (hn : 2 ≤ n) (chain : Chain) {i j : OrderItem} (hi : R i.ramp) (hj : R j.ramp)
include hn hi hj

theorem crossingWith : FailsOnly E (i.crossingWith j) := by
  unfold OrderItem.crossingWith
  split
  · exact h.crossing (by simp [hi, hj]) hn
  · exact h.crossing (by simp [hi, hj]) hn
  · exact .ok _

theorem check (rule : Rule) : FailsOnly E (rule.check i j) := by
  -- the price rule alone computes
  cases rule with
  | price =>
    unfold Rule.check Rule.checkPrice
    dsimp only
    generalize (i.isSell != j.isSell && decide (1 < (if i.isSell then i else j).numItems)) = larger
    cases larger with
    | true => exact .ok _
    | false =>
      refine (h.crossingWith hn hi hj).bind fun found _ => ?_
      cases found <;> exact .ok _
  | _ => exact .ok _

theorem violations : FailsOnly E (chain.violations i j) :=
  (FailsOnly.mapM fun rule _ => h.check hn hi hj rule).bind fun _ _ => .ok _

theorem accepts : FailsOnly E (chain.accepts i j) :=
  (h.violations hn chain hi hj).bind fun _ _ => .ok _

theorem prospect? (order : Order) : FailsOnly E (prospect? chain order ⟨i, j⟩) := by
  refine (h.accepts hn chain hi hj).bind fun accepted _ => ?_
  split
  · exact .ok _
  · refine (h.crossingWith hn hi hj).bind fun found _ => ?_
    cases found with
    | none => exact .ok _
    | some deal => exact (h.priceAt (by omega) hj _).bind fun _ _ => .ok _

omit hi in
theorem standing : FailsOnly E (standing i j) := by
  unfold Search.standing
  dsimp only
  split
  · exact (h.priceAt (by omega) hj _).bind fun _ _ => .ok _
  · exact .ok _

theorem standingFor : FailsOnly E (standingFor chain j i) := by
  refine (h.accepts hn chain hi hj).bind fun accepted _ => ?_
  split
  · exact h.standing hn hj
  · exact .ok _

end Two

/-! ## Two orders -/

section Orders

variable (hn : 2 ≤ n) (chain : Chain)
include hn

theorem isCompatible {root candidate : LoadedOrder} (hroot : ∀ r ∈ root.items, R r.ramp)
    (hcandidate : ∀ i ∈ candidate.items, R i.ramp) :
    FailsOnly E (isCompatible chain root candidate) :=
  FailsOnly.anyM fun _ hi => FailsOnly.anyM fun _ hr =>
    h.accepts hn chain (hroot _ hr) (hcandidate _ hi)

variable {roots : List OrderItem} (hroots : ∀ r ∈ roots, R r.ramp) {candidates : List LoadedOrder}
  (hcandidates : ∀ c ∈ candidates, ∀ i ∈ c.items, R i.ramp)
include hroots hcandidates

theorem prospects : FailsOnly E (prospects chain roots candidates) := by
  refine FailsOnly.bind (FailsOnly.mapM fun c hc => ?_) fun _ _ => .ok _
  refine FailsOnly.bind (FailsOnly.mapM fun pair hpair => ?_) fun _ _ => .ok _
  obtain ⟨i, hi, hpair⟩ := List.mem_flatMap.1 hpair
  obtain ⟨r, hr, rfl⟩ := List.mem_map.1 hpair
  exact h.prospect? hn chain (hroots r hr) (hcandidates c (List.mem_filter.1 hc).1 i hi) c.order

theorem rankedCandidates (side : Side) :
    FailsOnly E (rankedCandidates chain side roots candidates) := by
  rw [rankedCandidates_eq]
  refine FailsOnly.bind (FailsOnly.mapM fun c hc => ?_) fun _ _ => .ok _
  refine FailsOnly.bind (FailsOnly.bind (FailsOnly.mapM fun pair hpair => ?_) fun _ _ => .ok _)
    fun _ _ => .ok _
  obtain ⟨i, hi, hpair⟩ := List.mem_flatMap.1 hpair
  obtain ⟨r, hr, rfl⟩ := List.mem_map.1 hpair
  exact h.standingFor hn chain (hroots r hr) (hcandidates c (List.mem_filter.1 hc).1 i hi)

end Orders

/-! ## Many items -/

section Many

/-- One ramp against several others, from either side. -/
theorem crossings {r : PriceRamp} (hr : R r) {others : List PriceRamp} (hothers : ∀ r ∈ others, R r)
    (hlen : others.length < n) :
    FailsOnly E (PriceRamp.crossing [r] others) ∧ FailsOnly E (PriceRamp.crossing others [r]) := by
  have hall : ∀ r' ∈ r :: others, R r' := List.forall_mem_cons.2 ⟨hr, hothers⟩
  constructor
  · exact h.crossing hall hlen
  · refine h.crossing (fun r' hr' => hall r' (by simpa [or_comm] using hr')) ?_
    rw [List.length_append]
    exact hlen

theorem bundleCrossing {item : OrderItem} {opposing : List OrderItem} (hlen : opposing.length < n)
    (hitem : R item.ramp) (hopposing : ∀ i ∈ opposing, R i.ramp) :
    FailsOnly E (bundleCrossing item opposing) := by
  have hothers : ∀ r ∈ opposing.map (·.ramp), R r := by simpa using hopposing
  have hlen : (opposing.map (·.ramp)).length < n := by simpa using hlen
  unfold Matchbook.bundleCrossing
  dsimp only
  cases item.side with
  | buy => exact (h.crossings hitem hothers hlen).1
  | sell =>
    dsimp only
    split
    · exact (h.crossings hitem hothers hlen).2
    · refine (h.crossings (h.free hitem) hothers hlen).2.bind fun found _ => ?_
      cases found with
      | none => exact .ok _
      | some deal => exact (h.sumAt _ hothers (Nat.le_of_lt hlen)).bind fun _ _ => .ok _

theorem stampOneToMany {order : Order} {pairs : List ItemPair} (hlen : pairs.length < n)
    (horder : R order.ramp) (hpairs : ∀ p ∈ pairs, R p.opposing.ramp) :
    FailsOnly E (stampOneToMany order pairs) := by
  have hothers : ∀ r ∈ pairs.map (·.opposing.ramp), R r := by simpa using hpairs
  obtain ⟨hbuy, hsell⟩ := h.crossings horder hothers (by simpa using hlen)
  unfold Matchbook.stampOneToMany
  split
  · exact .ok _
  · dsimp only
    cases order.side with
    | buy => exact hbuy.bind fun _ _ => .ok _
    | sell => exact hsell.bind fun _ _ => .ok _

variable (hn : 2 ≤ n) (chain : Chain)
include hn

theorem checkBundle {item : OrderItem} {opposing : List OrderItem} (hlen : opposing.length < n)
    (hitem : R item.ramp) (hopposing : ∀ i ∈ opposing, R i.ramp) :
    FailsOnly E (chain.checkBundle item opposing) := by
  refine (FailsOnly.mapM fun i hi =>
    h.violations hn chain hitem (hopposing i hi)).bind fun _ _ => ?_
  refine (h.bundleCrossing hlen hitem hopposing).bind fun found _ => ?_
  cases found with
  | none => exact .ok _
  | some deal =>
    dsimp only
    split <;> exact .ok _

theorem firstUnfilled : ∀ {filling : List (OrderItem × List OrderItem)},
    (∀ f ∈ filling, R f.1.ramp ∧ f.2.length < n ∧ ∀ i ∈ f.2, R i.ramp) →
      FailsOnly E (firstUnfilled chain filling)
  | [], _ => .ok _
  | (item, opposing) :: filling, hfilling => by
    obtain ⟨⟨hitem, hlen, hopposing⟩, hrest⟩ := List.forall_mem_cons.1 hfilling
    refine (h.checkBundle hn chain hlen hitem hopposing).bind fun verdict _ => ?_
    split
    · exact firstUnfilled hrest
    · exact .ok _

end Many

end Matchbook.Tame
