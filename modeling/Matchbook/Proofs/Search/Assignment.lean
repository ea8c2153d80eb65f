/-
  Filling an order is giving it units greedily.

  * `supply_eq`: the sources that stand for a unit are those of the units of the
    candidates, in the order of the line;
  * `GreedilyFilled`: a greedy assignment places as many units as the order is for, every
    item is filled by what it took, and the pairs are stamped;
  * `tryFill_streamed`: as many units flow (`streamed`) as a greedy assignment places;
  * `fill_greedy`: an order has a record exactly if it is filled greedily, and it is the
    one that is stamped then.
-/
import Matchbook.Proofs.Search.Fill
import Matchbook.Proofs.Search.Serving
import Matchbook.Proofs.Search.Standing

namespace Matchbook

/-- An order for one token has no items that stand for one but its unit. -/
theorem LoadedOrder.Bound.filter_pos {o : LoadedOrder} (h : o.Bound) (hone : o.order.numItems = 1) :
    (o.items.filter fun i => decide (0 < i.quantity.toNat)) = o.unit?.toList := by
  have hsum : ((o.items.filter fun i => decide (0 < i.quantity.toNat)).map (·.quantity.toNat)).sum ≤
      1 := calc
    _ ≤ (o.items.map (·.quantity.toNat)).sum :=
      (List.filter_sublist.map _).sum_le_sum fun _ _ => Nat.zero_le _
    _ = 1 := by
      rw [h.total, hone]
      rfl
  rw [unit?, ← List.head?_filter]
  have hpos : ∀ i ∈ o.items.filter fun i => decide (0 < i.quantity.toNat), 0 < i.quantity.toNat :=
    fun i hi => of_decide_eq_true (List.mem_filter.1 hi).2
  generalize (o.items.filter fun i => decide (0 < i.quantity.toNat)) = units at hsum hpos ⊢
  match units with
  | [] => rfl
  | [i] => rfl
  | i :: j :: units =>
    have hi := hpos i (by simp)
    have hj := hpos j (by simp)
    simp only [List.map_cons, List.sum_cons] at hsum
    omega

namespace Search

open Matchbook.Flow

variable {chain : Chain} {root : LoadedOrder} {candidates line : List LoadedOrder}
  {roots sources : List (NodeKey × OrderItem)} {g : Graph OrderItem} {lots : List Lot}

/-! ## What is served -/

/-- The sources that stand for a unit are the units of the line. -/
theorem supply_eq (hsources : sources.map Prod.snd = line.flatMap LoadedOrder.items)
    (hline : ∀ o ∈ line, o.Bound ∧ o.order.numItems = 1) :
    (supply sources).map Prod.snd = line.filterMap LoadedOrder.unit? := by
  have hmap : (supply sources).map Prod.snd =
      (sources.map Prod.snd).filter fun i => decide (0 < i.quantity.toNat) := by
    rw [List.filter_map]
    rfl
  rw [hmap, hsources, List.filter_flatMap, List.filterMap_eq_flatMap_toList]
  exact List.flatMap_congr fun o ho => (hline o ho).1.filter_pos (hline o ho).2

/-- Where nothing flows yet, no lot was taken. -/
theorem tracks_of_still (hst : g.Still) {units : List OrderItem}
    (hsupply : (supply sources).map Prod.snd = units) :
    List.Forall₂ (Tracks g) (supply sources) (units.map fun i => ⟨i, none⟩) := by
  rw [← hsupply, List.map_map, List.forall₂_map_right_iff, List.forall₂_same]
  refine fun s _ => ⟨rfl, fun j => iff_of_false nofun ?_⟩
  rintro ⟨k, e, he, hpos, -, -⟩
  rw [hst he] at hpos
  exact Nat.lt_irrefl 0 hpos

/-! ## The record -/

/-- The units of the line, given to the root's items greedily, are as many as the order is
    for, each item is filled by what it took, and the pairs are stamped as this record. -/
structure GreedilyFilled (chain : Chain) (root : LoadedOrder) (line : List LoadedOrder)
    (record : MatchRecord) : Prop where
  enough : taken (greedy chain root line) = root.order.numItems.toNat
  filled : ∀ f ∈ assigned root.items (greedy chain root line), IsFilled chain f
  stamped : stampOneToMany root.order (pairsOf (assigned root.items (greedy chain root line))) =
    .ok (some record)

/-- A stream through the root's items, where the candidates of a line were linked and
    nothing flows yet, serves them greedily. -/
theorem saturate_greedy {c : Collection Order}
    (hholds : c.Holds g ((numbered root.items).map Prod.fst)) (hcursor : c.cursor = none)
    (hmax : c.maxFlow = root.order.numItems.toNat) (hs : g.Sound) (hst : g.Still)
    (hthreaded : Threaded chain (numbered root.items) sources g)
    (hsources : sources.map Prod.snd = line.flatMap LoadedOrder.items)
    (hline : ∀ o ∈ line, o.Bound ∧ o.order.numItems = 1) :
    ∃ c' g', c.saturate g = (taken (greedy chain root line), c', g') ∧
      taken (greedy chain root line) ≤ root.order.numItems.toNat ∧
        Tracked chain (numbered root.items) sources g' (greedy chain root line) := by
  have hzero : g.load ((numbered root.items).map Prod.fst) = 0 := by
    rw [← hholds.flow_eq, hs.collection_flow_eq_zero hst]
  have hnone := taken_of_none (line.filterMap LoadedOrder.unit?)
  have hserving : Serving chain (numbered root.items) sources c g root.order.numItems.toNat
      (numbered root.items) ((line.filterMap LoadedOrder.unit?).map fun i => ⟨i, none⟩) := by
    refine ⟨.init hholds hcursor, .refl _, ⟨hs, hthreaded, fun s hmem => ?_,
      tracks_of_still hst (supply_eq hsources hline)⟩, hnone.trans hzero.symm,
      by rw [hnone, hmax, Nat.zero_add]⟩
    have hitem := hsources ▸ List.mem_map_of_mem (f := Prod.snd) hmem
    obtain ⟨o, ho, hi⟩ := List.mem_flatMap.1 hitem
    exact (hline o ho).1.quantity_le_one (hline o ho).2 hi
  obtain ⟨steps, c', g', hstream, hholds', htracked, hreached, hcap⟩ :=
    hserving.stream (n := g.edges.size + 1) (by omega)
  refine ⟨c', g', ?_, hmax ▸ hcap, htracked⟩
  rw [Collection.saturate, hstream]
  dsimp only
  rw [hholds'.flow_eq, ← hreached]
  rfl

/-- The nodes of the root's items are their places. -/
theorem itemNodes_eq_numbered {c : Collection Order} (hp : Placed .empty [] root true c g) :
    c.itemNodes g = numbered root.items := by
  rw [hp.itemNodes_eq, numbered, List.range_eq_range']
  rfl

/-- Linking the candidates of a line to a root that was placed, and streaming, serves the
    root's items greedily. -/
theorem linkCandidates_greedy {c : Collection Order} (hp : Placed .empty [] root true c g)
    (hcursor : c.cursor = none)
    (hline : ∀ o ∈ line, o.Bound ∧ o.order.numItems = 1) {g₁ : Graph OrderItem}
    (hlink : linkCandidates chain (numbered root.items) line g = .ok g₁) :
    ∃ c' g₂ sources, c.saturate g₁ = (taken (greedy chain root line), c', g₂) ∧
      taken (greedy chain root line) ≤ root.order.numItems.toNat ∧
        Tracked chain (numbered root.items) sources g₂ (greedy chain root line) := by
  have hroots := itemNodes_eq_numbered hp
  have hkeys : (numbered root.items).map Prod.fst = List.range' 0 root.items.length :=
    hroots ▸ hp.itemNodes_keys
  have hnodup : ((numbered root.items).map Prod.fst).Nodup := hkeys ▸ List.nodup_range'
  have hstill : g.Still := hp.still fun he => by cases he
  have hwired : Wired chain (numbered root.items) [] g := hroots ▸ .init hp
  have hlinked := (linkCandidates_spec (E := fun _ => True) hnodup line (w := ⟨g, [c]⟩) hp.lists
    (hp.sound .empty) hstill hwired fun _ _ _ _ _ _ _ _ => trivial).gives
  have hinit : Threaded chain (numbered root.items) [] g := hroots ▸ .init hp
  obtain ⟨sources, hsources, hthreaded⟩ := linkCandidates_threaded hnodup line (w := ⟨g, [c]⟩)
    hp.lists (hp.sound .empty) hstill hinit hlink
  rw [hlink] at hlinked
  obtain ⟨hs₁, hst₁, -, cs, ls, hlists⟩ := hlinked
  have hholds : c.Holds g₁ ((numbered root.items).map Prod.fst) :=
    hkeys ▸ hlists.holds (i := 0) rfl rfl
  obtain ⟨c', g₂, hsaturate⟩ :=
    saturate_greedy hholds hcursor hp.maxFlow hs₁ hst₁ hthreaded hsources hline
  exact ⟨c', g₂, sources, hsaturate⟩

/-- How many units flow through the root's items when the candidates are linked and a
    stream is drained. -/
def streamed (chain : Chain) (root : LoadedOrder) (candidates : List LoadedOrder) :
    Except Interruption Nat := do
  let (_, collection, g) ← operate (root.place true Graph.empty)
  let roots := collection.itemNodes g
  let ranked ← compute (rankedCandidates chain root.order.side (roots.map (·.2)) candidates)
  let g ← linkCandidates chain roots (ranked.map (·.2)) g
  return (collection.saturate g).1

/-- Filling an order for several tokens that names all of them has as many units flow as a
    greedy assignment places, and either reports that these are too few or settles what it
    gave the items. -/
theorem tryFill_streamed (hmultiple : 1 < root.order.numItems)
    (hnamed : root.isFullySpecified = true) (hbound : ∀ o ∈ candidates, o.Bound) {outcome : Outcome}
    (h : tryFill chain root candidates = .ok outcome) :
    ∃ ranked lots, IsRanked chain root.order.side root.items candidates ranked ∧
      lots = greedy chain root (lineUp root.order.side ranked) ∧
        streamed chain root candidates = .ok (taken lots) ∧
          (taken lots < root.order.numItems.toNat ∧
              (∃ n, outcome = .nothing (.notFilled (taken lots) root.order.numItems n)) ∨
            taken lots = root.order.numItems.toNat ∧
              settle chain root.order (assigned root.items lots) = .ok outcome) := by
  unfold tryFill at h
  unfold streamed
  rw [if_neg (UInt32.not_le.2 hmultiple), if_neg (by simp [hnamed])] at h
  obtain ⟨c, g, hplace, hp⟩ := place_spec .empty root true
  have hcursor := cursor_place root true Graph.empty
  have hplace : root.place true Graph.empty = (.ok (), c, g) := hplace
  rw [hplace] at hcursor
  simp only [hplace, operate, ok_bind] at h ⊢
  obtain ⟨line, hline, h⟩ := bind_eq_ok.1 h
  rw [hline, ok_bind]
  rw [compute, mapError_eq_ok, hp.itemNodes_items] at hline
  obtain ⟨ranked, hranked, hlineUp⟩ := exists_ranked hline
  rw [itemNodes_eq_numbered hp] at h ⊢
  obtain ⟨g₁, hlink, h⟩ := bind_eq_ok.1 h
  rw [hlink, ok_bind]
  obtain ⟨c', g₂, sources, hsaturate, hcap, htracked⟩ :=
    linkCandidates_greedy hp hcursor (fun o ho =>
      ((rankedCandidates_spec hline).1 o ho).imp_left (hbound o)) hlink
  simp only [hsaturate] at h ⊢
  obtain ⟨filling, hfilling, hfed⟩ := flowedPairs_spec htracked.sound (numbered root.items)
  rw [htracked.filling_eq hfed] at hfilling
  rw [hlineUp] at hcap hfilling h ⊢
  refine ⟨ranked, _, hranked, rfl, rfl, ?_⟩
  split at h
  · next hreached => exact Or.inl ⟨hreached, _, (Except.ok.inj h).symm⟩
  · next hreached =>
    simp only [hfilling, ok_bind] at h
    rw [compute, mapError_eq_ok] at h
    exact Or.inr ⟨Nat.le_antisymm hcap (Nat.le_of_not_lt hreached), h⟩

/-- What filling gives an order for several tokens that names all of them. -/
theorem tryFill_greedy (hmultiple : 1 < root.order.numItems) (hnamed : root.isFullySpecified = true)
    (hbound : ∀ o ∈ candidates, o.Bound) {outcome : Outcome}
    (h : tryFill chain root candidates = .ok outcome) :
    ∃ ranked found, IsRanked chain root.order.side root.items candidates ranked ∧
      outcome.records = found.toList ∧ ∀ record, found = some record ↔
        GreedilyFilled chain root (lineUp root.order.side ranked) record := by
  obtain ⟨ranked, lots, hranked, rfl, -, ⟨hshort, n, rfl⟩ | ⟨henough, hsettle⟩⟩ :=
    tryFill_streamed hmultiple hnamed hbound h
  · refine ⟨ranked, none, hranked, rfl, fun record =>
      iff_of_false (Option.some_ne_none record).symm fun hfilled => ?_⟩
    exact Nat.ne_of_lt hshort hfilled.enough
  · obtain ⟨found, hrecords, hfound⟩ := settle_spec hsettle
    refine ⟨ranked, found, hranked, hrecords, fun record => (hfound record).trans ?_⟩
    constructor
    · rintro ⟨hfilled, hstamped⟩
      exact ⟨henough, hfilled, hstamped⟩
    · intro hfilled
      exact ⟨hfilled.filled, hfilled.stamped⟩

/-- The computation is not stopped by a decimal that overflows. -/
def NeverOverflows {γ : Type} (x : Except ArithmeticError γ) : Prop :=
  ∀ e, x = .error e → e = .divisionByZero

/-- Where nothing overflows, filling gives what it tries to. -/
theorem exists_tryFill (h : NeverOverflows (fill chain root candidates)) :
    ∃ outcome, tryFill chain root candidates = .ok outcome ∧
      fill chain root candidates = .ok outcome := by
  unfold fill at h ⊢
  have hends : Ends (· ≠ .divisionByZero) _ (tryFill chain root candidates) :=
    tryFill_ends (tame_overflow _) chain root (Nat.lt_succ_self _) trivial (fun _ _ => trivial)
      fun _ _ _ _ => trivial
  rcases hends.cases with ⟨outcome, htry⟩ | ⟨e, htry, hoverflow⟩
  · exact ⟨outcome, htry, by rw [htry]; rfl⟩
  · exact absurd (h e (by rw [htry]; rfl)) hoverflow

/-- An order without items is not filled. -/
theorem not_greedilyFilled (hempty : root.items = []) (hmultiple : 1 < root.order.numItems)
    {record : MatchRecord} : ¬ GreedilyFilled chain root line record := by
  intro h
  have hnone : taken (greedy chain root line) = 0 := by
    rw [greedy, hempty]
    cases root.order.numItems.toNat <;> exact taken_of_none _
  have henough := h.enough
  have htwo : 1 < root.order.numItems.toNat := UInt32.lt_iff_toNat_lt.1 hmultiple
  omega

/-- **Greedy filling**: an order for several tokens that are all named has a record exactly
    if the units of the candidates that stand, in the order of their best standings, fill
    it greedily, and it is the record that is stamped then. -/
theorem fill_greedy (chain : Chain) (root : LoadedOrder) {candidates : List LoadedOrder}
    (hmultiple : 1 < root.order.numItems) (hnamed : ∀ i ∈ root.items, i.hasToken = true)
    (hbound : ∀ o ∈ candidates, o.Bound) (hfits : NeverOverflows (fill chain root candidates)) :
    (∃ ranked, IsRanked chain root.order.side root.items candidates ranked) ∧
      ∀ ranked, IsRanked chain root.order.side root.items candidates ranked →
        ∃ outcome found, fill chain root candidates = .ok outcome ∧
          outcome.records = found.toList ∧ ∀ record, found = some record ↔
            GreedilyFilled chain root (lineUp root.order.side ranked) record := by
  obtain ⟨outcome, htry, hfill⟩ := exists_tryFill hfits
  by_cases hempty : root.items = []
  · have hnone : outcome.records = [] := by
      have hopen : (!root.isFullySpecified) = true := by
        rw [LoadedOrder.isFullySpecified, hempty]
        rfl
      rw [tryFill, if_neg (UInt32.not_le.2 hmultiple), if_pos hopen] at htry
      obtain rfl := Except.ok.inj htry
      rfl
    refine ⟨⟨[], by simp [hempty, isStanding], List.forall_mem_nil _⟩,
      fun ranked _ => ⟨outcome, none, hfill, hnone, fun record => ?_⟩⟩
    exact iff_of_false (Option.some_ne_none record).symm (not_greedilyFilled hempty hmultiple)
  · have hfull : root.isFullySpecified = true := by
      simpa [LoadedOrder.isFullySpecified, hempty] using hnamed
    obtain ⟨ranked, found, hranked, hrecords, hfound⟩ :=
      tryFill_greedy hmultiple hfull hbound htry
    refine ⟨⟨ranked, hranked⟩, fun ranked' hranked' => ⟨outcome, found, hfill, hrecords, ?_⟩⟩
    rw [lineUp_unique hranked' hranked]
    exact hfound

/-- An offer for two tokens is filled greedily by their listings. -/
theorem fill_greedy_bundle :
    let candidates := [askFor "7", askFor "8"]
    1 < bundle.order.numItems ∧ (∀ i ∈ bundle.items, i.hasToken = true) ∧
      (∀ o ∈ candidates, o.Bound) ∧ NeverOverflows (fill Chain.standard bundle candidates) ∧
        ∃ ranked record, IsRanked Chain.standard .buy bundle.items candidates ranked ∧
          GreedilyFilled Chain.standard bundle (lineUp .buy ranked) record := by
  intro candidates
  have hmultiple : 1 < bundle.order.numItems := by decide
  have hnamed : ∀ i ∈ bundle.items, i.hasToken = true := by decide
  have hbound : ∀ o ∈ candidates, o.Bound := by decide
  obtain ⟨outcome, houtcome, hlength⟩ := fill_bundle
  have hfits : NeverOverflows (fill Chain.standard bundle candidates) := by
    intro e he
    cases houtcome.symm.trans he
  refine ⟨hmultiple, hnamed, hbound, hfits, ?_⟩
  obtain ⟨⟨ranked, hranked⟩, hfill⟩ :=
    fill_greedy Chain.standard bundle hmultiple hnamed hbound hfits
  obtain ⟨outcome', found, houtcome', hrecords, hfound⟩ := hfill ranked hranked
  obtain rfl := Except.ok.inj (houtcome.symm.trans houtcome')
  rw [hrecords] at hlength
  cases found with
  | none => cases hlength
  | some record => exact ⟨ranked, record, hranked, (hfound record).1 rfl⟩

end Search
end Matchbook
