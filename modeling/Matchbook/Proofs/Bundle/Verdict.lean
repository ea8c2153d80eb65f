/-
  What the test of a bundle says.

  * `IsBundleDeal` is the deal between an item and the opposing items together, one case
    for each kind of item (`bundleCrossing_eq_some_iff`);
  * `Fills`: the opposing items fill the item, as they should;
  * `IsPass` and `IsRefusal`: what is said of a bundle that passes, and why one does not;
  * `Chain.checkBundle_exact`: a bundle passes exactly if it fills the item.  A single
    opposing item does if the chain accepts it and it stands for as many tokens, at the
    deal that the two items have anyway.
-/
import Matchbook.Bundle.Basic
import Matchbook.Proofs.Order.Binding
import Matchbook.Proofs.Price.Crossing
import Matchbook.Proofs.Rule.Violations
import Matchbook.Proofs.Sorting

namespace Matchbook

variable {chain : Chain} {item : OrderItem} {opposing : List OrderItem} {deal : Crossing}

/-! ## The deal -/

/-- The deal between an item and the opposing items together. -/
inductive IsBundleDeal (item : OrderItem) (opposing : List OrderItem) : Crossing → Prop where
  /-- An offer pays what the opposing listings ask together. -/
  | offer {deal : Crossing} : item.side = .buy →
      PriceRamp.crossing [item.ramp] (opposing.map (·.ramp)) = .ok (some deal) →
      IsBundleDeal item opposing deal
  /-- A listing of one token is paid by the opposing offers together. -/
  | listing {deal : Crossing} : item.side = .sell → item.numItems ≤ 1 →
      PriceRamp.crossing (opposing.map (·.ramp)) [item.ramp] = .ok (some deal) →
      IsBundleDeal item opposing deal
  /-- An item of a larger listing asks for nothing by itself, and gets what the opposing
      offers pay. -/
  | share {deal : Crossing} {price : Decimal} : item.side = .sell → 1 < item.numItems →
      PriceRamp.crossing (opposing.map (·.ramp))
        [.constant .zero item.startTime item.endTime] = .ok (some deal) →
      PriceRamp.sumAt (opposing.map (·.ramp)) deal.timestamp = .ok price →
      IsBundleDeal item opposing ⟨price, deal.timestamp⟩

theorem bundleCrossing_eq_some_iff :
    bundleCrossing item opposing = .ok (some deal) ↔ IsBundleDeal item opposing deal := by
  unfold bundleCrossing
  dsimp only
  cases hside : item.side with
  | buy =>
    constructor
    · exact .offer hside
    · rintro (⟨-, h⟩ | ⟨h, -⟩ | ⟨h, -⟩)
      · exact h
      · cases hside.symm.trans h
      · cases hside.symm.trans h
  | sell =>
    dsimp only
    split
    · next hone =>
      constructor
      · exact .listing hside hone
      · rintro (⟨h, -⟩ | ⟨-, -, h⟩ | ⟨-, h, -⟩)
        · cases hside.symm.trans h
        · exact h
        · exact absurd hone (UInt32.not_le.2 h)
    · next hmany =>
      constructor
      · intro h
        obtain ⟨found, hfound, h⟩ := bind_eq_ok.1 h
        cases found with
        | none => cases pure_eq_ok.1 h
        | some d =>
          obtain ⟨price, hprice, h⟩ := bind_eq_ok.1 h
          obtain rfl := Option.some.inj (pure_eq_ok.1 h)
          exact .share hside (UInt32.not_le.1 hmany) hfound hprice
      · rintro (⟨h, -⟩ | ⟨-, h, -⟩ | ⟨-, -, hfound, hprice⟩)
        · cases hside.symm.trans h
        · exact absurd h hmany
        · show (PriceRamp.crossing (opposing.map (·.ramp))
            [.constant .zero item.startTime item.endTime] >>= _) = _
          rw [hfound, ok_bind]
          dsimp only
          rw [hprice]
          rfl

/-- The deal is struck inside the windows of all the items. -/
theorem IsBundleDeal.contains (h : IsBundleDeal item opposing deal) :
    ∀ i ∈ item :: opposing, i.ramp.contains deal.timestamp = true := by
  have hshared : ∀ {offers listings : List PriceRamp} {d : Crossing},
      PriceRamp.crossing offers listings = .ok (some d) →
        ∀ r ∈ offers ++ listings, r.contains d.timestamp = true := by
    intro offers listings d h
    have hne : offers ≠ [] ∧ listings ≠ [] := by
      constructor <;> rintro rfl <;> simp [PriceRamp.crossing] at h
    exact PriceRamp.shared_iff_contains.1 (PriceRamp.crossing_spec hne.1 hne.2 h).1
  have hmem : ∀ i ∈ opposing, i.ramp ∈ opposing.map (·.ramp) := fun i => List.mem_map_of_mem
  cases h with
  | offer _ h =>
    refine List.forall_mem_cons.2 ⟨?_, fun i hi => ?_⟩
    · exact hshared h _ List.mem_cons_self
    · exact hshared h _ (List.mem_append_right _ (hmem i hi))
  | listing _ _ h =>
    refine List.forall_mem_cons.2 ⟨?_, fun i hi => ?_⟩
    · exact hshared h _ (List.mem_append_right _ List.mem_cons_self)
    · exact hshared h _ (List.mem_append_left _ (hmem i hi))
  | share _ _ h _ =>
    refine List.forall_mem_cons.2 ⟨?_, fun i hi => ?_⟩
    · -- what is asked for nothing is asked over the window of the item
      have hfloor := hshared h _ (List.mem_append_right _ (List.mem_singleton_self _))
      exact hfloor
    · exact hshared h _ (List.mem_append_left _ (hmem i hi))

/-- Two items that have a deal are on different sides. -/
theorem OrderItem.isSell_ne_of_crossingWith {i j : OrderItem}
    (h : i.crossingWith j = .ok (some deal)) : i.isSell ≠ j.isSell := by
  intro heq
  unfold crossingWith side at h
  rw [heq] at h
  cases hj : j.isSell <;> rw [hj] at h <;> cases h

/-- A single opposing item has the deal that the two items have anyway, unless the item is
    only priced as a whole. -/
theorem isBundleDeal_singleton_iff {o : OrderItem} (hside : item.isSell ≠ o.isSell)
    (hwhole : item.isPricedWhole o = false) :
    IsBundleDeal item [o] deal ↔ item.crossingWith o = .ok (some deal) := by
  rw [← bundleCrossing_eq_some_iff]
  unfold bundleCrossing OrderItem.crossingWith OrderItem.side
  unfold OrderItem.isPricedWhole at hwhole
  cases hi : item.isSell with
  | false =>
    rw [hi] at hside
    cases ho : o.isSell with
    | false => exact absurd ho.symm hside
    | true => rfl
  | true =>
    rw [hi] at hside hwhole
    cases ho : o.isSell with
    | true => exact absurd ho.symm hside
    | false =>
      have hone : item.numItems ≤ 1 := by simpa [ho] using hwhole
      simp [Side.ofIsSell, hone]

/-! ## The quantity -/

theorem quantityViolation?_eq_none_iff : quantityViolation? item opposing = none ↔
    (opposing.map (·.quantity.toNat)).sum = item.quantity.toNat := by
  rw [← totalQuantity_eq_some_iff]
  unfold quantityViolation?
  split
  · next n hn =>
    rw [hn, Option.some.injEq]
    split
    · next h => exact iff_of_true rfl h
    · next h => exact iff_of_false nofun h
  · next hn =>
    rw [hn]
    exact iff_of_false nofun nofun

theorem rule_of_quantityViolation? {v : Violation} (h : quantityViolation? item opposing = some v) :
    v.rule = .quantity := by
  unfold quantityViolation? at h
  split at h
  · split at h
    · cases h
    · rw [← Option.some.inj h]
      rfl
  · rw [← Option.some.inj h]
    rfl

/-! ## The tokens -/

theorem mem_tokensOf {items : List OrderItem} {token : String} :
    token ∈ tokensOf items ↔ ∃ i ∈ items, i.tokenId = some token ∧ token ≠ "" := by
  simp [tokensOf, mem_eraseReps, OrderItem.token?, nonempty?, Option.filter_eq_some_iff]

theorem tokensOf_sorted (items : List OrderItem) : (tokensOf items).Pairwise (· < ·) :=
  pairwise_lt_eraseReps (List.pairwise_mergeSort' (· ≤ ·) _)

/-! ## The verdict -/

/-- The opposing items fill the item together. -/
structure Fills (chain : Chain) (item : OrderItem) (opposing : List OrderItem) : Prop where
  accepted : ∀ o ∈ opposing, chain.accepts item o = .ok true
  quantity : (opposing.map (·.quantity.toNat)).sum = item.quantity.toNat
  deal : ∃ deal, IsBundleDeal item opposing deal

/-- What is said of a bundle that passes. -/
structure IsPass (item : OrderItem) (opposing : List OrderItem) (numItems : UInt32)
    (tokenIds : List String) (deal : Crossing) : Prop where
  numItems : numItems = item.quantity
  sorted : tokenIds.Pairwise (· < ·)
  mem_tokenIds : ∀ token, token ∈ tokenIds ↔
    ∃ i ∈ item :: opposing, i.tokenId = some token ∧ token ≠ ""
  struck : IsBundleDeal item opposing deal
  contains : ∀ i ∈ item :: opposing, i.ramp.contains deal.timestamp = true

/-- The reasons that are given. -/
def BundleVerdict.reasons : BundleVerdict → List Violation
  | valid _ _ _ => []
  | invalid reasons => reasons

/-- Why a bundle does not pass: the violations of all opposing items in order, then that of
    the quantity and that of the price. -/
def IsRefusal (chain : Chain) (item : OrderItem) (opposing : List OrderItem)
    (reasons : List Violation) : Prop :=
  reasons ≠ [] ∧ ∃ (broken : List (List Violation)) (quantity price : Option Violation),
    reasons = broken.flatten ++ quantity.toList ++ price.toList ∧
    opposing.mapM (chain.violations item) = .ok broken ∧
    (quantity = none ↔ (opposing.map (·.quantity.toNat)).sum = item.quantity.toNat) ∧
    (∀ v ∈ quantity, v.rule = .quantity) ∧
    (price = none ↔ ∃ deal, IsBundleDeal item opposing deal) ∧ ∀ v ∈ price, v.rule = .price

namespace Chain

variable {verdict : BundleVerdict}

theorem flatten_violations_eq_nil_iff {broken : List (List Violation)}
    (h : opposing.mapM (chain.violations item) = .ok broken) :
    broken.flatten = [] ↔ ∀ o ∈ opposing, chain.accepts item o = .ok true := by
  obtain ⟨hcomputes, -⟩ := (mapM_eq_ok_iff []).1 h
  simp only [List.flatten_eq_nil_iff, mem_mapM_iff h, ← violations_eq_nil_iff]
  constructor
  · intro hnil o ho
    rw [hcomputes o ho, hnil _ ⟨o, ho, hcomputes o ho⟩]
  · rintro hnil vs ⟨o, ho, hvs⟩
    rw [hnil o ho] at hvs
    exact (Except.ok.inj hvs).symm

/-- A verdict is one of three: there is no deal, or a deal and nothing is broken, or a deal
    and something is. -/
theorem checkBundle_cases (h : chain.checkBundle item opposing = .ok verdict) :
    ∃ broken found, opposing.mapM (chain.violations item) = .ok broken ∧
      bundleCrossing item opposing = .ok found ∧
      let reasons := broken.flatten ++ (quantityViolation? item opposing).toList
      (found = none ∧ verdict = .invalid (reasons ++ [.bundleNeverCross])) ∨
        (∃ deal, found = some deal ∧ reasons = [] ∧ verdict =
          .valid ((totalQuantity opposing).getD 0) (tokensOf (item :: opposing)) deal) ∨
        ∃ deal, found = some deal ∧ reasons ≠ [] ∧ verdict = .invalid reasons := by
  obtain ⟨broken, hbroken, h⟩ := bind_eq_ok.1 h
  obtain ⟨found, hfound, h⟩ := bind_eq_ok.1 h
  refine ⟨broken, found, hbroken, hfound, ?_⟩
  cases found with
  | none => exact .inl ⟨rfl, (pure_eq_ok.1 h).symm⟩
  | some deal =>
    dsimp only at h
    split at h
    · next hempty => exact .inr (.inl ⟨deal, rfl, List.isEmpty_iff.1 hempty, (pure_eq_ok.1 h).symm⟩)
    · next hempty =>
      exact .inr (.inr ⟨deal, rfl, fun heq => hempty (List.isEmpty_iff.2 heq),
        (pure_eq_ok.1 h).symm⟩)

/-- A bundle that fills its item passes, and any other is refused. -/
theorem checkBundle_spec (h : chain.checkBundle item opposing = .ok verdict) :
    (Fills chain item opposing ∧ ∃ numItems tokenIds deal,
        verdict = .valid numItems tokenIds deal ∧ IsPass item opposing numItems tokenIds deal) ∨
      ¬ Fills chain item opposing ∧ ∃ reasons,
        verdict = .invalid reasons ∧ IsRefusal chain item opposing reasons := by
  obtain ⟨broken, found, hbroken, hfound, hcases⟩ := checkBundle_cases h
  have haccepted := flatten_violations_eq_nil_iff hbroken
  have hquantity : quantityViolation? item opposing = none ↔ _ := quantityViolation?_eq_none_iff
  have hrule : ∀ v ∈ quantityViolation? item opposing, v.rule = .quantity := fun v =>
    rule_of_quantityViolation?
  rcases hcases with ⟨rfl, rfl⟩ | ⟨deal, rfl, hnil, rfl⟩ | ⟨deal, rfl, hne, rfl⟩
  · have hnone : ¬ ∃ deal, IsBundleDeal item opposing deal := by
      rintro ⟨deal, hdeal⟩
      rw [bundleCrossing_eq_some_iff.2 hdeal] at hfound
      cases hfound
    refine .inr ⟨fun hfills => hnone hfills.deal, _, rfl, by simp, broken, _,
      some .bundleNeverCross, rfl, hbroken, hquantity, hrule, iff_of_false nofun hnone, ?_⟩
    rintro v ⟨⟩
    rfl
  · have hdeal := bundleCrossing_eq_some_iff.1 hfound
    obtain ⟨hflat, hnone⟩ := List.append_eq_nil_iff.1 hnil
    have hsum := hquantity.1 (Option.toList_eq_nil_iff.1 hnone)
    refine .inl ⟨⟨haccepted.1 hflat, hsum, deal, hdeal⟩, _, _, _, rfl, ?_, tokensOf_sorted _,
      fun token => mem_tokensOf, hdeal, hdeal.contains⟩
    rw [totalQuantity_eq_some_iff.2 hsum]
    rfl
  · have hdeal := bundleCrossing_eq_some_iff.1 hfound
    refine .inr ⟨fun hfills => hne ?_, _, rfl, hne, broken, _, none, by simp, hbroken, hquantity,
      hrule, iff_of_true rfl ⟨deal, hdeal⟩, nofun⟩
    rw [haccepted.2 hfills.accepted, hquantity.2 hfills.quantity]
    rfl

/-- An item that the price rule accepts has a deal, unless it is only priced as a whole. -/
theorem exists_crossing_of_accepts (hprice : Rule.price ∈ chain) {o : OrderItem}
    (hwhole : item.isPricedWhole o = false) (h : chain.accepts item o = .ok true) :
    ∃ deal, item.crossingWith o = .ok (some deal) := by
  have hcheck := accepts_iff.1 h _ hprice
  rw [Rule.check, Rule.checkPrice_eq, hwhole] at hcheck
  cases hcrossing : item.crossingWith o with
  | error e => simp [hcrossing, Except.map] at hcheck
  | ok found =>
    rw [hcrossing] at hcheck
    cases found with
    | none => cases hcheck
    | some deal => exact ⟨deal, rfl⟩

/-- A single opposing item fills the item if the chain accepts it and it stands for as many
    tokens. -/
theorem fills_singleton_iff (hprice : Rule.price ∈ chain) {o : OrderItem}
    (hwhole : item.isPricedWhole o = false) : Fills chain item [o] ↔
      chain.accepts item o = .ok true ∧ o.quantity = item.quantity := by
  constructor
  · intro h
    refine ⟨h.accepted o (List.mem_singleton_self o), UInt32.toNat_inj.1 ?_⟩
    simpa using h.quantity
  · rintro ⟨haccepts, hquantity⟩
    obtain ⟨deal, hdeal⟩ := exists_crossing_of_accepts hprice hwhole haccepts
    have hside := OrderItem.isSell_ne_of_crossingWith hdeal
    exact ⟨by simpa using haccepts, by simpa using congrArg UInt32.toNat hquantity, deal,
      (isBundleDeal_singleton_iff hside hwhole).2 hdeal⟩

/-- **The test of a bundle is exact**: it passes exactly if it fills the item, and else the
    reasons are what is wrong, in order.  A single opposing item passes exactly if the chain
    accepts it and it stands for as many tokens, unless the price rule does not hold it
    against the item, and the deal is that of the two items. -/
theorem checkBundle_exact (h : chain.checkBundle item opposing = .ok verdict) :
    (verdict.isValid = true ↔ Fills chain item opposing) ∧
    (∀ numItems tokenIds deal, verdict = .valid numItems tokenIds deal →
      IsPass item opposing numItems tokenIds deal) ∧
    (∀ reasons, verdict = .invalid reasons → IsRefusal chain item opposing reasons) ∧
    ∀ o, opposing = [o] → .price ∈ chain → item.isPricedWhole o = false →
      (verdict.isValid = true ↔ chain.accepts item o = .ok true ∧ o.quantity = item.quantity) ∧
      ∀ numItems tokenIds deal, verdict = .valid numItems tokenIds deal →
        item.crossingWith o = .ok (some deal) := by
  rcases checkBundle_spec h with
    ⟨hfills, n, tokens, deal, rfl, hpass⟩ | ⟨hnot, reasons, rfl, hrefusal⟩
  · refine ⟨iff_of_true rfl hfills, ?_, nofun, ?_⟩
    · rintro _ _ _ ⟨⟩
      exact hpass
    · rintro o rfl hprice hwhole
      have hsingle := (fills_singleton_iff hprice hwhole).1 hfills
      refine ⟨iff_of_true rfl hsingle, ?_⟩
      rintro _ _ _ ⟨⟩
      obtain ⟨d, hd⟩ := exists_crossing_of_accepts hprice hwhole hsingle.1
      have hsides := OrderItem.isSell_ne_of_crossingWith hd
      exact (isBundleDeal_singleton_iff hsides hwhole).1 hpass.struck
  · refine ⟨iff_of_false nofun hnot, nofun, ?_, ?_⟩
    · rintro _ ⟨⟩
      exact hrefusal
    · rintro o rfl hprice hwhole
      exact ⟨iff_of_false nofun fun hsingle => hnot ((fills_singleton_iff hprice hwhole).2 hsingle),
        nofun⟩

/-- An offer for any two tokens is filled by the listings of two, but not by one of them alone
    that starts when the offer has ended: two rules are broken, and it stands for one token
    only and never meets the offer. -/
theorem checkBundle_exact_asks :
    let bid := OrderItem.ofOrder { windowOrder .buy "alice" 0 10 with
      numItems := 2, startPrice := .ofUInt64 12, endPrice := .ofUInt64 12 } "bid" "collection"
        none 2
    let ask := fun token : String =>
      OrderItem.ofOrder (windowOrder .sell "bob" 3 20) token "collection" (some token) 1
    let late := { ask "8" with startTime := 12 }
    (∃ numItems tokenIds deal,
      standard.checkBundle bid [ask "8", ask "7"] = .ok (.valid numItems tokenIds deal) ∧
        IsPass bid [ask "8", ask "7"] numItems tokenIds deal) ∧
      ∃ reasons, standard.checkBundle bid [late] = .ok (.invalid reasons) ∧ reasons.length = 4 ∧
        IsRefusal standard bid [late] reasons := by
  intro bid ask late
  have hpasses : ((standard.checkBundle bid [ask "8", ask "7"]).map (·.isValid)).toOption =
      some true := by decide +kernel
  have hrefused : ((standard.checkBundle bid [late]).map (·.reasons.length)).toOption = some 4 := by
    decide +kernel
  obtain ⟨verdict, hverdict, hvalid⟩ := toOption_map_eq_some_iff.1 hpasses
  obtain ⟨refusal, hrefusal, hlength⟩ := toOption_map_eq_some_iff.1 hrefused
  obtain ⟨-, hpass, -⟩ := checkBundle_exact hverdict
  obtain ⟨-, -, hreasons, -⟩ := checkBundle_exact hrefusal
  constructor
  · cases verdict with
    | valid n tokens deal => exact ⟨n, tokens, deal, hverdict, hpass n tokens deal rfl⟩
    | invalid reasons => cases hvalid
  · cases refusal with
    | valid n tokens deal => cases hlength
    | invalid reasons => exact ⟨reasons, hrefusal, hlength, hreasons reasons rfl⟩

end Chain
end Matchbook
