/-
  Filling does not depend on the order of the candidates.

  * `rankedCandidates_perm`: the candidates are linked in an order of their own;
  * `fill_perm`: what is linked decides everything else.
-/
import Mathlib.Data.List.Basic
import Matchbook.Proofs.Except
import Matchbook.Proofs.Search.Ranking
import Matchbook.Search.Filling

namespace Matchbook.Search

instance (side : Side) : Std.TransCmp (compareCandidates side) :=
  have := transCmp_on side.rank (Prod.fst : Crossing × LoadedOrder → Crossing)
  inferInstanceAs (Std.TransCmp (compareLex (fun a b : Crossing × LoadedOrder => side.rank a.1 b.1)
    (compareLex (compareOn fun a : Crossing × LoadedOrder => a.2.isOpen)
      (compareOn fun a : Crossing × LoadedOrder => a.2.order.id))))

/-- Candidates of one order tie only. -/
theorem id_eq_of_compareCandidates {side : Side} {a b : Crossing × LoadedOrder}
    (h : compareCandidates side a b = .eq) : a.2.order.id = b.2.order.id := by
  rw [compareCandidates, Ordering.then_eq_eq, Ordering.then_eq_eq] at h
  exact Std.LawfulEqOrd.eq_of_compare h.2.2

variable {chain : Chain} {candidates candidates' : List LoadedOrder}

/-- A candidate with its best standing, if it has one. -/
def ranked? (chain : Chain) (side : Side) (roots : List OrderItem) (candidate : LoadedOrder) :
    Except ArithmeticError (Option (Crossing × LoadedOrder)) := do
  return (← bestStanding chain side roots candidate).map (·, candidate)

theorem snd_eq_of_ranked? {side : Side} {roots : List OrderItem} {candidate : LoadedOrder}
    {x : Crossing × LoadedOrder} (h : ranked? chain side roots candidate = .ok (some x)) :
    x.2 = candidate := by
  obtain ⟨d, -, h⟩ := bind_eq_ok.1 h
  obtain ⟨deal, -, rfl⟩ := Option.map_eq_some_iff.1 (pure_eq_ok.1 h)
  rfl

theorem rankedCandidates_eq (side : Side) (roots : List OrderItem) (candidates : List LoadedOrder) :
    rankedCandidates chain side roots candidates = do
      let found ← (candidates.filter (·.order.numItems == 1)).mapM (ranked? chain side roots)
      return (found.filterMap id).mergeSort fun a b => (compareCandidates side a b).isLE := rfl

/-- The candidates are linked in the same order, in whatever order they come. -/
theorem rankedCandidates_perm {side : Side} {roots : List OrderItem}
    (hp : candidates.Perm candidates') (hd : (candidates.map (·.order.id)).Nodup)
    {ranked : List (Crossing × LoadedOrder)}
    (h : rankedCandidates chain side roots candidates = .ok ranked) :
    rankedCandidates chain side roots candidates' = .ok ranked := by
  rw [rankedCandidates_eq] at h ⊢
  obtain ⟨found, hfound, h⟩ := bind_eq_ok.1 h
  have hsingles := hp.filter (·.order.numItems == 1)
  rw [mapM_eq_ok_perm none hfound hsingles, ok_bind, ← h]
  obtain ⟨hall, rfl⟩ := (mapM_eq_ok_iff none).1 hfound
  have hflat : ∀ l : List LoadedOrder,
      (l.map fun c => (ranked? chain side roots c).toOption.getD none).filterMap id =
        l.flatMap fun c => ((ranked? chain side roots c).toOption.getD none).toList := by
    intro l
    rw [List.filterMap_map, List.filterMap_eq_flatMap_toList]
    rfl
  rw [hflat, hflat]
  refine congrArg _ (mergeSort_flatMap_perm hsingles _ ?_).symm
  have hids :
      (candidates.filter (·.order.numItems == 1)).Pairwise fun c d => c.order.id ≠ d.order.id :=
    (List.pairwise_map.1 hd).filter _
  refine hids.imp_of_mem fun {c d} hc hd hcd x hx y hy he => hcd ?_
  have hsnd : ∀ {c : LoadedOrder} {x : Crossing × LoadedOrder},
      c ∈ candidates.filter (·.order.numItems == 1) →
        x ∈ ((ranked? chain side roots c).toOption.getD none).toList → x.2 = c := by
    intro c x hc hx
    have hc := hall c hc
    rw [Option.mem_toList.1 hx] at hc
    exact snd_eq_of_ranked? hc
  rw [← hsnd hc hx, ← hsnd hd hy]
  exact id_eq_of_compareCandidates he

/-- **Filling does not depend on the order of the candidates**, where these have
    different ids. -/
theorem fill_perm {root : LoadedOrder} (hp : candidates.Perm candidates')
    (hd : (candidates.map (·.order.id)).Nodup) {outcome : Outcome}
    (h : fill chain root candidates = .ok outcome) : fill chain root candidates' = .ok outcome := by
  unfold fill tryFill at h ⊢
  by_cases hm : root.order.numItems ≤ 1
  · rw [if_pos hm] at h ⊢
    exact h
  rw [if_neg hm] at h ⊢
  by_cases hs : (!root.isFullySpecified) = true
  · rw [if_pos hs] at h ⊢
    exact h
  rw [if_neg hs] at h ⊢
  cases hplace : operate (root.place true Flow.Graph.empty) with
  | error e =>
    rw [hplace] at h
    exact h
  | ok placed =>
    obtain ⟨_, c, g⟩ := placed
    rw [hplace] at h
    simp only [ok_bind] at h ⊢
    -- the candidates are looked at only to rank them
    cases hr : rankedCandidates chain root.order.side ((c.itemNodes g).map (·.2)) candidates with
    | error e =>
      rw [hr] at h
      cases h
    | ok ranked =>
      rw [rankedCandidates_perm hp hd hr]
      rw [hr] at h
      exact h

end Matchbook.Search
