/-
  How a search fails.

  * `tryPair_ends`: what makes pairing fail, as `tryFill_ends` says it of filling;
  * `searches_never_refused`: no operation on a graph is refused, whatever the orders are,
    so that an outcome without records is never a failure of the graph;
  * `cappedAnswer_failsOnly`: a search of a store fails as these do;
  * `moderate_searches_compute`: with moderate prices and windows nothing overflows, and
    `pair_overflows`: with others it does, even for a candidate that is not accepted.
-/
import Matchbook.Proofs.Price.Moderate
import Matchbook.Proofs.Search.Fill

namespace Matchbook.Search

variable {E : ArithmeticError → Prop} {R : PriceRamp → Prop} {n : Nat} (h : Tame E R n)

/-! ## The graphs -/

include h in
/-- Pairing fails as computing with two ramps does. -/
theorem tryPair_ends (hn : 2 ≤ n) (chain : Chain) {root : LoadedOrder}
    {candidates : List LoadedOrder} (hitems : ∀ i ∈ root.items, R i.ramp)
    (hcandidates : ∀ c ∈ candidates, ∀ i ∈ c.items, R i.ramp) :
    Ends E (fun _ => True) (tryPair chain root candidates) := by
  rw [tryPair_eq]
  split
  · refine (Ends.compute ?_).imp fun _ _ => trivial
    exact (h.prospects hn chain hitems hcandidates).bind fun _ _ => .ok _
  · exact .ok trivial

/-- **No search is refused anything** by its graph: for all orders, bound or not, and
    repeated or not, it gives an outcome, unless a decimal overflows; nothing is divided by
    zero either. -/
theorem searches_never_refused (chain : Chain) (root : LoadedOrder)
    (candidates : List LoadedOrder) :
    ((∃ outcome, tryPair chain root candidates = .ok outcome) ∨
      ∃ e, tryPair chain root candidates = .error (.arithmetic e) ∧ e ≠ .divisionByZero) ∧
    ((∃ outcome, tryFill chain root candidates = .ok outcome) ∨
      ∃ e, tryFill chain root candidates = .error (.arithmetic e) ∧ e ≠ .divisionByZero) :=
  ⟨(tryPair_ends (tame_overflow 2) (Nat.le_refl 2) chain (fun _ _ => trivial)
      fun _ _ _ _ => trivial).cases,
    (tryFill_ends (tame_overflow _) chain root (Nat.lt_succ_self _) trivial (fun _ _ => trivial)
      fun _ _ _ _ => trivial).cases⟩

/-! ## The store -/

/-- A failure of computing is of this kind; other failures are left open. -/
def Arithmetic (E : ArithmeticError → Prop) (e : SearchError) : Prop := ∀ a, e = .arithmetic a → E a

theorem Arithmetic.failsOnly {α β : Type} {x : Except ArithmeticError α} (hx : FailsOnly E x)
    (f : α → β) : FailsOnly (Arithmetic E) ((x.map f).mapError .arithmetic) := by
  cases x with
  | ok a => exact .ok _
  | error e => exact .error fun _ he => SearchError.arithmetic.inj he ▸ hx e rfl

theorem orReport_failsOnly {event : Flow.Failure → Event} {x : Except Interruption Outcome}
    (hx : ∀ e, x = .error (.arithmetic e) → E e) : FailsOnly E (orReport event x) := by
  match x with
  | .ok outcome => exact .ok _
  | .error (.graph failure) => exact .ok _
  | .error (.arithmetic e) => exact .error (hx e rfl)

theorem enabled_failsOnly (wanted : Bool) {x : Except ArithmeticError Outcome}
    (hx : FailsOnly E x) : FailsOnly (Arithmetic E) (enabled wanted x) := by
  cases wanted with
  | false => exact .ok _
  | true => exact Arithmetic.failsOnly hx _

section Stored

variable {s : Store} (hn : 2 ≤ n) (chain : Chain) (hstore : ∀ i ∈ s.items.rows, R i.ramp)

theorem ramp_of_bind (hstore : ∀ i ∈ s.items.rows, R i.ramp) {order : Order} {o : LoadedOrder}
    (ho : order.bind (s.itemsOf order.id) = .ok o) : ∀ i ∈ o.items, R i.ramp := by
  rw [eq_of_bind ho]
  exact fun i hi => hstore i (List.mem_filter.1 hi).1

/-- An order that is found has stored items. -/
theorem ramp_of_verdict (hstore : ∀ i ∈ s.items.rows, R i.ramp) {root candidate : LoadedOrder}
    {id : String} (hv : s.verdict chain root id = .ok (some candidate)) :
    ∀ i ∈ candidate.items, R i.ramp := by
  unfold Store.verdict at hv
  split at hv
  · cases hv
  · split at hv
    · cases hv
    · next hbind =>
      split at hv
      · cases hv
      · cases hv
        exact ramp_of_bind hstore hbind
      · cases hv

include h hn hstore

theorem verdict_failsOnly {root : LoadedOrder} (hroot : ∀ i ∈ root.items, R i.ramp) (id : String) :
    FailsOnly (Arithmetic E) (s.verdict chain root id) := by
  unfold Store.verdict
  split
  · exact .ok _
  · split
    · exact .ok _
    · next hbind =>
      have hcompatible := h.isCompatible hn chain hroot (ramp_of_bind hstore hbind)
      split
      · next e he => exact .error fun _ ha => SearchError.arithmetic.inj ha ▸ hcompatible e he
      · exact .ok _
      · exact .ok _

end Stored

include h in
/-- A search of a store fails as computing with its items does, or since the root is
    invalid. -/
theorem cappedAnswer_failsOnly {s : Store} {search : Search} (hn : 2 ≤ n)
    (hnum : search.root.numItems.toNat < n) (horder : R search.root.ramp)
    (hstore : ∀ i ∈ s.items.rows, R i.ramp) (possible : Option (List OrderItem)) :
    FailsOnly (Arithmetic E) (search.cappedAnswer s possible) := by
  refine FailsOnly.bind ?_ fun root hroot => ?_
  · cases search.root.bind (s.itemsOf search.root.id) with
    | ok root => exact .ok _
    | error defect => exact .error nofun
  have hbind := mapError_eq_ok.1 hroot
  have hitems := ramp_of_bind hstore hbind
  have hsame : root.order = search.root := by rw [eq_of_bind hbind]
  refine FailsOnly.bind ?_ fun sifted hsifted => ?_
  · exact (FailsOnly.mapM fun id _ =>
      verdict_failsOnly h hn _ hstore hitems id).bind fun _ _ => .ok _
  have hcandidates : ∀ c ∈ sifted.candidates, ∀ i ∈ c.items, R i.ramp := by
    obtain ⟨found, hfound, hsifted⟩ := bind_eq_ok.1 hsifted
    obtain rfl := pure_eq_ok.1 hsifted
    intro c hc
    obtain ⟨_, hmem, rfl⟩ := List.mem_filterMap.1 (List.mem_filter.1 hc).1
    obtain ⟨id, -, hv⟩ := (mem_mapM_iff hfound).1 hmem
    exact ramp_of_verdict _ hstore hv
  have hpair := tryPair_ends h hn search.chain hitems hcandidates
  have hfill := tryFill_ends h search.chain root (hsame ▸ hnum) (hsame ▸ horder) hitems hcandidates
  exact (enabled_failsOnly _ (orReport_failsOnly hpair.fails)).bind fun _ _ =>
    (enabled_failsOnly _ (orReport_failsOnly hfill.fails)).bind fun _ _ => .ok _

/-! ## Moderate prices -/

/-- **Nothing overflows** where the prices are `P` at most, the windows shorter than `D` and
    the orders for less than `n` tokens, and these numbers are small enough together: the
    searches give an outcome, and a search of a store gives a result or says what is wrong
    with the root. -/
theorem moderate_searches_compute {P D n : Nat} (hD : 0 < D)
    (hbound : 3 * n * P * D < Decimal.coefficientBound) (hn : 2 ≤ n) :
    (∀ (chain : Chain) (root : LoadedOrder) (candidates : List LoadedOrder),
      root.order.numItems.toNat < n → root.order.ramp.Moderate P D →
        (∀ i ∈ root.items, i.ramp.Moderate P D) →
          (∀ c ∈ candidates, ∀ i ∈ c.items, i.ramp.Moderate P D) →
            (∃ outcome, pair chain root candidates = .ok outcome) ∧
              ∃ outcome, fill chain root candidates = .ok outcome) ∧
    ∀ (s : Store) (search : Search) (possible : Option (List OrderItem)) (journal : Journal),
      search.root.numItems.toNat < n → search.root.ramp.Moderate P D →
        (∀ i ∈ s.items.rows, i.ramp.Moderate P D) →
          ∀ e, search.inMemory s possible journal ≠ .error (.arithmetic e) := by
  have h := tame_moderate hD hbound
  refine ⟨fun chain root candidates hnum horder hitems hcandidates => ⟨?_, ?_⟩,
    fun s search possible journal hnum horder hstore e => ?_⟩
  · exact (orReport_failsOnly (tryPair_ends h hn chain hitems hcandidates).fails).exists_ok
  · exact (orReport_failsOnly
      (tryFill_ends h chain root hnum horder hitems hcandidates).fails).exists_ok
  · rw [inMemory_eq_capped]
    exact fun he => cappedAnswer_failsOnly h hn hnum horder hstore possible _ he e rfl

/-- An offer for two tokens and the listings of these are moderate, and so are the orders
    of a store. -/
theorem moderate_searches_compute_bundle :
    let candidates := [askFor "7", askFor "8"]
    let search := ofOrder (standingOrder "ask" "alice" .sell)
    (bundle.order.ramp.Moderate 10 11 ∧ (∀ i ∈ bundle.items, i.ramp.Moderate 10 11) ∧
      ∀ c ∈ candidates, ∀ i ∈ c.items, i.ramp.Moderate 10 11) ∧
    (search.root.ramp.Moderate 10 11 ∧ ∀ i ∈ market.items.rows, i.ramp.Moderate 10 11) ∧
    (∃ outcome, pair Chain.standard bundle candidates = .ok outcome) ∧
    (∃ outcome, fill Chain.standard bundle candidates = .ok outcome) ∧
    ∀ e, search.inMemory market none .empty ≠ .error (.arithmetic e) := by
  intro candidates search
  have horders : bundle.order.ramp.Moderate 10 11 ∧ (∀ i ∈ bundle.items, i.ramp.Moderate 10 11) ∧
      ∀ c ∈ candidates, ∀ i ∈ c.items, i.ramp.Moderate 10 11 := by decide
  have hstore :
      search.root.ramp.Moderate 10 11 ∧ ∀ i ∈ market.items.rows, i.ramp.Moderate 10 11 := by
    decide
  obtain ⟨hsearches, hmemory⟩ :=
    moderate_searches_compute (P := 10) (D := 11) (n := 3) (by decide) (by decide) (by decide)
  obtain ⟨hpair, hfill⟩ := hsearches Chain.standard bundle candidates (by decide) horders.1
    horders.2.1 horders.2.2
  exact ⟨horders, hstore, hpair, hfill,
    hmemory market search none .empty (by decide) hstore.1 hstore.2⟩

/-! ## Steep prices -/

/-- A listing whose price rises from nothing to the largest decimal. -/
def steepAsk : LoadedOrder :=
  let order := { standingOrder "ask" "alice" .sell with
    startPrice := .zero
    endPrice := .ofNat (Decimal.coefficientBound - 1) (by decide) }
  ⟨order, [onlyLine order]⟩

/-- An offer for a token of another collection that comes while the price rises. -/
def strangerBid : LoadedOrder :=
  let order := { standingOrder "bid" "bob" .buy with startTime := 5 }
  ⟨order, [.ofOrder order order.id "other collection" (some "7") 1]⟩

/-- **The price of a listing overflows**, and pairing with it, though the offer is for a
    token of another collection. -/
theorem pair_overflows : steepAsk.Bound ∧ strangerBid.Bound ∧
    (∀ i ∈ steepAsk.items, ∀ j ∈ strangerBid.items, i.collection ≠ j.collection) ∧
      pair Chain.standard steepAsk [strangerBid] = .error .multiplicationOverflow := by
  refine ⟨by decide, by decide, by decide, ?_⟩
  decide +kernel

end Matchbook.Search
