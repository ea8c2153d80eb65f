/-
  The order in which candidates are tried to fill an order.

  * `Stands`: what a candidate is ranked by, for each pair of its items with the root's
    that the chain accepts and whose windows overlap; `IsBest` is the best of these;
  * `Precedes`: the better standing comes first, then orders that name their tokens, then
    the smaller id;
  * `IsRanked`: the candidates that stand, each with its best standing; `lineUp` sorts them
    stably.  The candidates are tried in this order (`exists_ranked`), and there is one
    such order only (`lineUp_unique`).
-/
import Mathlib.Data.String.Basic
import Matchbook.Proofs.Search.Scan

namespace Matchbook.Search

/-! ## Standings -/

/-- The windows of the items share a moment. -/
def overlaps (root candidate : OrderItem) : Bool :=
  decide (max root.startTime candidate.startTime ≤ min root.endTime candidate.endTime)

/-- The price that an item of the candidate has at the first moment that it shares with a
    root item for which the chain accepts it. -/
def Stands (chain : Chain) (roots : List OrderItem) (c : LoadedOrder) (d : Crossing) : Prop :=
  ∃ i ∈ c.items, ∃ r ∈ roots, chain.accepts r i = .ok true ∧ overlaps r i = true ∧
    d.timestamp = max r.startTime i.startTime ∧ i.ramp.priceAt d.timestamp = .ok d.price

/-- None of the candidate's standings is better for the side. -/
structure IsBest (chain : Chain) (side : Side) (roots : List OrderItem) (c : LoadedOrder)
    (d : Crossing) : Prop where
  stands : Stands chain roots c d
  least : ∀ d', Stands chain roots c d' → side.rank d' d ≠ .lt

/-- Whether some item of the candidate is accepted for a root item and shares a moment
    with it. -/
def isStanding (chain : Chain) (roots : List OrderItem) (c : LoadedOrder) : Bool :=
  c.items.any fun i => roots.any fun r => chain.admits r i && overlaps r i

/-- The candidates for one token that stand, each with its best standing. -/
structure IsRanked (chain : Chain) (side : Side) (roots : List OrderItem)
    (candidates : List LoadedOrder) (ranked : List (Crossing × LoadedOrder)) : Prop where
  candidates : ranked.map Prod.snd =
    candidates.filter fun c => c.order.numItems == 1 && isStanding chain roots c
  best : ∀ x ∈ ranked, IsBest chain side roots x.2 x.1

/-- The first candidate is tried before the second, or they tie: its standing is better, or
    as good and it names all its tokens as the second does not, or else its id is not
    greater. -/
def Precedes (side : Side) (a b : Crossing × LoadedOrder) : Prop :=
  side.rank a.1 b.1 = .lt ∨ side.rank a.1 b.1 = .eq ∧
    (a.2.isOpen = false ∧ b.2.isOpen = true ∨
      a.2.isOpen = b.2.isOpen ∧ a.2.order.id ≤ b.2.order.id)

instance (side : Side) (a b : Crossing × LoadedOrder) : Decidable (Precedes side a b) :=
  inferInstanceAs (Decidable (_ ∨ _))

/-- The candidates in the order in which they are tried; those that tie keep theirs. -/
def lineUp (side : Side) (ranked : List (Crossing × LoadedOrder)) : List LoadedOrder :=
  (ranked.mergeSort fun a b => decide (Precedes side a b)).map Prod.snd

/-! ## The best of them -/

variable {chain : Chain} {side : Side} {roots : List OrderItem}

theorem precedes_iff {a b : Crossing × LoadedOrder} :
    (compareCandidates side a b).isLE = true ↔ Precedes side a b := by
  unfold compareCandidates Precedes
  have hid : (compare a.2.order.id b.2.order.id).isLE = true ↔ a.2.order.id ≤ b.2.order.id :=
    Std.LawfulBCmp.isLE_iff_le
  rw [← hid]
  cases side.rank a.1 b.1 with
  | lt => simp
  | gt => simp
  | eq =>
    cases a.2.isOpen <;> cases b.2.isOpen
    all_goals cases compare a.2.order.id b.2.order.id <;> decide

theorem decide_precedes (side : Side) : (fun a b => decide (Precedes side a b)) =
    fun a b => (compareCandidates side a b).isLE := by
  funext a b
  rw [Bool.eq_iff_iff, precedes_iff, decide_eq_true_iff]

theorem standing_eq_some_iff {root candidate : OrderItem} {d : Crossing} :
    standing root candidate = .ok (some d) ↔ overlaps root candidate = true ∧
      d.timestamp = max root.startTime candidate.startTime ∧
        candidate.ramp.priceAt d.timestamp = .ok d.price := by
  unfold standing overlaps
  dsimp only
  split
  · next hle =>
    rw [bind_eq_ok, decide_eq_true hle]
    constructor
    · rintro ⟨price, hprice, h⟩
      obtain rfl := Option.some.inj (pure_eq_ok.1 h)
      exact ⟨rfl, rfl, hprice⟩
    · rintro ⟨-, htime, hprice⟩
      rw [htime] at hprice
      exact ⟨d.price, hprice, by rw [← htime]; rfl⟩
  · next hle =>
    rw [decide_eq_false hle]
    exact iff_of_false nofun fun h => Bool.false_ne_true h.1

theorem standingFor_eq_some_iff {i r : OrderItem} {d : Crossing} :
    standingFor chain i r = .ok (some d) ↔ chain.accepts r i = .ok true ∧ overlaps r i = true ∧
      d.timestamp = max r.startTime i.startTime ∧ i.ramp.priceAt d.timestamp = .ok d.price := by
  rw [standingFor, bind_eq_ok, ← standing_eq_some_iff]
  constructor
  · rintro ⟨accepted, haccepts, h⟩
    cases accepted with
    | false => cases h
    | true => exact ⟨haccepts, h⟩
  · exact fun ⟨haccepts, h⟩ => ⟨true, haccepts, h⟩

/-- Where it can be computed, an item has a standing if it is accepted and the windows
    overlap. -/
theorem isSome_of_standingFor {i r : OrderItem} {o : Option Crossing}
    (h : standingFor chain i r = .ok o) : o.isSome = (chain.admits r i && overlaps r i) := by
  cases o with
  | some d =>
    obtain ⟨haccepts, hoverlaps, -⟩ := standingFor_eq_some_iff.1 h
    rw [Chain.admits_iff.2 haccepts, hoverlaps]
    rfl
  | none =>
    obtain ⟨accepted, haccepts, h⟩ := bind_eq_ok.1 h
    rw [Chain.admits, haccepts]
    cases accepted with
    | false => rfl
    | true =>
      rw [if_pos rfl, standing] at h
      split at h
      · obtain ⟨price, -, h⟩ := bind_eq_ok.1 h
        cases h
      · next hle => exact (decide_eq_false hle).symm

/-- The best deal is one of them, and none is better. -/
theorem best_spec {c d : Crossing} {ds : List Crossing} (h : best side (c :: ds) = some d) :
    d ∈ c :: ds ∧ ∀ d' ∈ c :: ds, side.rank d' d ≠ .lt := by
  obtain rfl := Option.some.inj h
  induction ds generalizing c with
  | nil => simp [Std.ReflCmp.compare_self]
  | cons x ds ih =>
    rw [List.foldl_cons]
    by_cases hgt : side.rank c x = .gt
    · rw [if_pos hgt]
      obtain ⟨hmem, hleast⟩ := ih (c := x) rfl
      refine ⟨List.mem_cons_of_mem _ hmem, List.forall_mem_cons.2 ⟨fun hlt => ?_, hleast⟩⟩
      -- the first one is worse than the second
      exact hleast x List.mem_cons_self
        (Std.TransCmp.lt_trans (Std.OrientedCmp.lt_of_gt hgt) hlt)
    · rw [if_neg hgt]
      obtain ⟨hmem, hleast⟩ := ih (c := c) rfl
      obtain ⟨hfirst, hrest⟩ := List.forall_mem_cons.1 hleast
      refine ⟨List.cons_subset_cons c (List.subset_cons_self x ds) hmem,
        List.forall_mem_cons.2 ⟨hfirst, List.forall_mem_cons.2 ⟨fun hlt => ?_, hrest⟩⟩⟩
      have hle : (side.rank c x).isLE = true := Ordering.isLE_iff_ne_gt.2 hgt
      exact hfirst (Std.TransCmp.lt_of_isLE_of_lt hle hlt)

theorem isStanding_iff {c : LoadedOrder} : isStanding chain roots c = true ↔
    ∃ i ∈ c.items, ∃ r ∈ roots, (chain.admits r i && overlaps r i) = true := by
  simp [isStanding]

/-- Where it can be computed, the best standing is there exactly if the candidate stands. -/
theorem bestStanding_spec {c : LoadedOrder} {o : Option Crossing}
    (h : bestStanding chain side roots c = .ok o) :
    o.isSome = isStanding chain roots c ∧ ∀ d, o = some d → IsBest chain side roots c d := by
  obtain ⟨standings, hstandings, h⟩ := bind_eq_ok.1 h
  obtain rfl := pure_eq_ok.1 h
  have hpair : ∀ x, x ∈ standings ↔
      ∃ i ∈ c.items, ∃ r ∈ roots, standingFor chain i r = .ok x := by
    intro x
    rw [mem_mapM_iff hstandings]
    simp
  have hmem : ∀ d, d ∈ standings.filterMap id ↔ Stands chain roots c d := by
    intro d
    rw [List.mem_filterMap, Stands]
    simp only [id, exists_eq_right, hpair, standingFor_eq_some_iff]
  have hstands : isStanding chain roots c = true ↔ ∃ d, d ∈ standings.filterMap id := by
    rw [isStanding_iff]
    constructor
    · rintro ⟨i, hi, r, hr, hstands⟩
      have hcomputed := ((mapM_eq_ok_iff none).1 hstandings).1 (i, r) (by simp [hi, hr])
      rw [← isSome_of_standingFor hcomputed] at hstands
      obtain ⟨d, hd⟩ := Option.isSome_iff_exists.1 hstands
      rw [hd] at hcomputed
      exact ⟨d, (hmem d).2 ⟨i, hi, r, hr, standingFor_eq_some_iff.1 hcomputed⟩⟩
    · rintro ⟨d, hd⟩
      obtain ⟨i, hi, r, hr, haccepts, hoverlaps, -⟩ := (hmem d).1 hd
      exact ⟨i, hi, r, hr, by rw [Chain.admits_iff.2 haccepts, hoverlaps]; rfl⟩
  cases hds : standings.filterMap id with
  | nil =>
    rw [hds] at hstands
    refine ⟨?_, nofun⟩
    have hfalse : isStanding chain roots c = false := by
      refine Bool.eq_false_iff.2 fun htrue => ?_
      obtain ⟨d, hd⟩ := hstands.1 htrue
      cases hd
    rw [hfalse]
    rfl
  | cons d₀ ds =>
    rw [hds] at hmem hstands
    refine ⟨(hstands.2 ⟨d₀, List.mem_cons_self⟩).symm, fun d hd => ?_⟩
    obtain ⟨hd, hleast⟩ := best_spec hd
    exact ⟨(hmem d).1 hd, fun d' hd' => hleast d' ((hmem d').2 hd')⟩

/-! ## The line -/

/-- The candidates that are ranked are those that stand. -/
theorem ranked_spec : ∀ {singles : List LoadedOrder}
    {found : List (Option (Crossing × LoadedOrder))},
    singles.mapM (ranked? chain side roots) = .ok found →
      (found.filterMap id).map Prod.snd = singles.filter (isStanding chain roots) ∧
        ∀ x ∈ found.filterMap id, IsBest chain side roots x.2 x.1
  | [], found, h => by
    obtain rfl := pure_eq_ok.1 h
    exact ⟨rfl, List.forall_mem_nil _⟩
  | c :: singles, found, h => by
    rw [List.mapM_cons] at h
    obtain ⟨x, hx, h⟩ := bind_eq_ok.1 h
    obtain ⟨found, hfound, h⟩ := bind_eq_ok.1 h
    obtain rfl := pure_eq_ok.1 h
    obtain ⟨hrest, hbest⟩ := ranked_spec hfound
    obtain ⟨o, ho, hx⟩ := bind_eq_ok.1 hx
    obtain rfl := pure_eq_ok.1 hx
    obtain ⟨hsome, hd⟩ := bestStanding_spec ho
    cases o with
    | none =>
      rw [List.filter_cons_of_neg (by rw [← hsome]; decide)]
      exact ⟨hrest, hbest⟩
    | some d =>
      rw [List.filter_cons_of_pos (by rw [← hsome]; rfl), ← hrest]
      exact ⟨rfl, List.forall_mem_cons.2 ⟨hd d rfl, hbest⟩⟩

/-- The candidates are tried in the order that sorting those that stand gives. -/
theorem exists_ranked {candidates : List LoadedOrder} {line : List (Crossing × LoadedOrder)}
    (h : rankedCandidates chain side roots candidates = .ok line) :
    ∃ ranked, IsRanked chain side roots candidates ranked ∧
      line.map Prod.snd = lineUp side ranked := by
  rw [rankedCandidates_eq] at h
  obtain ⟨found, hfound, h⟩ := bind_eq_ok.1 h
  obtain rfl := pure_eq_ok.1 h
  obtain ⟨hcandidates, hbest⟩ := ranked_spec hfound
  refine ⟨found.filterMap id, ⟨?_, hbest⟩, by rw [lineUp, decide_precedes]⟩
  rw [hcandidates, List.filter_filter]
  exact List.filter_congr fun c _ => Bool.and_comm _ _

/-- The line is of the candidates that are ranked. -/
theorem lineUp_perm (side : Side) (ranked : List (Crossing × LoadedOrder)) :
    (lineUp side ranked).Perm (ranked.map Prod.snd) := (List.mergeSort_perm _ _).map _

/-- Of candidates with standings that are as good, those that name all their tokens come
    first. -/
theorem pairwise_lineUp {ranked : List (Crossing × LoadedOrder)}
    (hequal : ∀ a ∈ ranked, ∀ b ∈ ranked, side.rank a.1 b.1 = .eq) :
    (lineUp side ranked).Pairwise fun a b => a.isOpen = true → b.isOpen = true := by
  have hsorted : (ranked.mergeSort fun a b => decide (Precedes side a b)).Pairwise
      fun a b => (compareCandidates side a b).isLE = true := by
    rw [decide_precedes]
    exact List.pairwise_mergeSort (fun _ _ _ => Std.TransCmp.isLE_trans) (isLE_total _) ranked
  refine List.pairwise_map.2 (hsorted.imp_of_mem fun {a b} ha hb hle hopen => ?_)
  have heq := hequal a (List.mem_mergeSort.1 ha) b (List.mem_mergeSort.1 hb)
  rcases precedes_iff.1 hle with hlt | ⟨-, ⟨hnamed, -⟩ | ⟨hsame, -⟩⟩
  · cases heq.symm.trans hlt
  · cases hnamed.symm.trans hopen
  · exact hsame ▸ hopen

/-! ## No other line -/

theorem IsBest.rank_eq {c : LoadedOrder} {d d' : Crossing} (h : IsBest chain side roots c d)
    (h' : IsBest chain side roots c d') : side.rank d d' = .eq := by
  have hlt := h'.least d h.stands
  have hgt := h.least d' h'.stands
  cases hc : side.rank d d' with
  | lt => exact absurd hc hlt
  | eq => rfl
  | gt => exact absurd (Std.OrientedCmp.lt_of_gt hc) hgt

/-- Candidates with standings that are as good are tried in the same order. -/
theorem precedes_congr {a b a' b' : Crossing × LoadedOrder} (h : a.2 = b.2)
    (hr : side.rank a.1 b.1 = .eq) (h' : a'.2 = b'.2) (hr' : side.rank a'.1 b'.1 = .eq) :
    Precedes side a a' ↔ Precedes side b b' := by
  have hrank : side.rank a.1 a'.1 = side.rank b.1 b'.1 := by
    rw [Std.TransCmp.congr_left hr, Std.TransCmp.congr_right hr']
  rw [Precedes, Precedes, hrank, h, h']

/-- There is one line only: it does not matter by which of its best standings a candidate
    is ranked. -/
theorem lineUp_unique {candidates : List LoadedOrder}
    {ranked ranked' : List (Crossing × LoadedOrder)}
    (h : IsRanked chain side roots candidates ranked)
    (h' : IsRanked chain side roots candidates ranked') :
    lineUp side ranked = lineUp side ranked' := by
  have hsnd : List.Forall₂ (fun a b => a.2 = b.2) ranked ranked' :=
    map_eq_map_iff_forall₂.1 (h.candidates.trans h'.candidates.symm)
  have hsame : List.Forall₂ (fun a b => a.2 = b.2 ∧ side.rank a.1 b.1 = .eq) ranked ranked' :=
    forall₂_imp_mem hsnd fun a ha b hb heq => ⟨heq, (h.best a ha).rank_eq (heq ▸ h'.best b hb)⟩
  have hline := forall₂_mergeSort (r := fun a b => decide (Precedes side a b))
    (s := fun a b => decide (Precedes side a b)) (fun hab hab' =>
      decide_eq_decide.2 (precedes_congr hab.1 hab.2 hab'.1 hab'.2)) hsame
  exact map_eq_map_iff_forall₂.2 (hline.imp fun _ _ hab => hab.1)

end Matchbook.Search
