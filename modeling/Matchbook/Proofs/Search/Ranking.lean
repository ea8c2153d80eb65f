/-
  The orders by which searches go through deals, and sorting by them.

  * `Side.comparePrices` and `Side.rank` are orders for both sides;
  * `mergeSort_flatMap_perm`: sorting keeps the order inside of blocks, so where
    elements of different blocks do not tie, it does not matter in which order the
    blocks are given;
  * `find?_mergeSort_le`: the first that satisfies a condition is a least one.
-/
import Mathlib.Tactic.Set
import Matchbook.Proofs.Decimal.Order
import Matchbook.Proofs.Ordering
import Matchbook.Search.Outcome

namespace Matchbook

/-! ## Sides -/

instance (side : Side) : Std.TransCmp side.comparePrices := by
  cases side with
  | buy => exact inferInstanceAs (Std.TransCmp (compare (α := Decimal)))
  | sell => exact @Std.TransCmp.opposite Decimal compare _

instance (side : Side) : Std.TransCmp side.rank :=
  have := transCmp_on side.comparePrices Crossing.price
  inferInstanceAs (Std.TransCmp (compareLex (fun a b : Crossing =>
    side.comparePrices a.price b.price) (compareOn Crossing.timestamp)))

/-! ## Sorting -/

section Sorting

variable {α β : Type}

/-- Two different elements of a list stand in one order or the other. -/
theorem pair_sublist_or {l : List α} {a b : α} (ha : a ∈ l) (hb : b ∈ l) (hab : a ≠ b) :
    [a, b].Sublist l ∨ [b, a].Sublist l := by
  induction l with
  | nil => cases ha
  | cons x l ih =>
    rcases List.mem_cons.1 ha with rfl | ha' <;> rcases List.mem_cons.1 hb with rfl | hb'
    · exact absurd rfl hab
    · exact Or.inl ((List.singleton_sublist.2 hb').cons_cons _)
    · exact Or.inr ((List.singleton_sublist.2 ha').cons_cons _)
    · exact (ih ha' hb').imp (List.Sublist.cons x) (List.Sublist.cons x)

/-- Without repetition they do not stand in both orders. -/
theorem not_pair_sublist {l : List α} (hl : l.Nodup) {a b : α} (hab : [a, b].Sublist l) :
    ¬ [b, a].Sublist l := by
  induction l with
  | nil => cases hab
  | cons x l ih =>
    obtain ⟨hx, hl⟩ := List.nodup_cons.1 hl
    intro hba
    cases hab with
    | cons _ hab =>
      cases hba with
      | cons _ hba => exact ih hl hab hba
      | cons_cons _ _ => exact hx (hab.subset (by simp))
    | cons_cons _ hb =>
      cases hba with
      | cons _ hba => exact hx (hba.subset (by simp))
      | cons_cons _ _ => exact hx (hb.subset (by simp))

/-- A list in which ties stand in the order of their second parts stays so when it
    is sorted by the first ones. -/
theorem pairwise_mergeSort_of_ties {cmp : α → α → Ordering} [Std.TransCmp cmp]
    {l : List (α × Nat)}
    (hl : l.Pairwise fun p q => cmp p.1 q.1 = .eq → p.2 < q.2) :
    (l.mergeSort fun p q => (cmp p.1 q.1).isLE).Pairwise fun p q =>
      cmp p.1 q.1 = .lt ∨ cmp p.1 q.1 = .eq ∧ p.2 < q.2 := by
  set le := fun p q : α × Nat => (cmp p.1 q.1).isLE
  have htrans : ∀ p q r, le p q = true → le q r = true → le p r = true := fun _ _ _ =>
    Std.TransCmp.isLE_trans
  have htotal : ∀ p q, (le p q || le q p) = true := fun p q => isLE_total cmp p.1 q.1
  have hnd : l.Nodup := by
    refine hl.imp fun h he => ?_
    subst he
    exact Nat.lt_irrefl _ (h Std.ReflCmp.compare_self)
  have hnd' : (l.mergeSort le).Nodup := (List.mergeSort_perm l le).nodup_iff.2 hnd
  have hle := List.pairwise_mergeSort htrans htotal l
  rw [List.pairwise_iff_forall_sublist] at hl hle ⊢
  intro p q hpq
  cases hc : cmp p.1 q.1 with
  | lt => exact Or.inl rfl
  | gt =>
    have := hle hpq
    simp [le, hc] at this
  | eq =>
    refine Or.inr ⟨rfl, ?_⟩
    have hmem : ∀ r ∈ [p, q], r ∈ l := fun r hr => List.mem_mergeSort.1 (hpq.subset hr)
    have hne : p ≠ q := by
      rintro rfl
      exact absurd (hnd'.sublist hpq) (by simp)
    rcases pair_sublist_or (hmem p (by simp)) (hmem q (by simp)) hne with h | h
    · exact hl h hc
    · -- sorting would have kept the other order
      have hqp : le q p = true := by
        simp [le, Std.OrientedCmp.eq_symm hc]
      exact absurd (List.pair_sublist_mergeSort htrans htotal hqp h) (not_pair_sublist hnd' hpq)

theorem pairwise_zipIdx (l : List α) (k : Nat) : (l.zipIdx k).Pairwise fun p q => p.2 < q.2 := by
  induction l generalizing k with
  | nil => exact .nil
  | cons a l ih =>
    refine List.pairwise_cons.2 ⟨fun q hq => ?_, ih (k + 1)⟩
    exact (List.mem_zipIdx hq).1

/-- Sorting blocks of which no two tie does not depend on their order. -/
theorem mergeSort_flatMap_perm {cmp : α → α → Ordering} [Std.TransCmp cmp] {l l' : List β}
    (hl : l.Perm l') (f : β → List α)
    (hsep : l.Pairwise fun x y => ∀ a ∈ f x, ∀ b ∈ f y, cmp a b ≠ .eq) :
    (l.flatMap f).mergeSort (fun a b => (cmp a b).isLE) =
      (l'.flatMap f).mergeSort fun a b => (cmp a b).isLE := by
  -- every element is marked with its place in its block
  have hties : ∀ {l : List β}, (l.Pairwise fun x y => ∀ a ∈ f x, ∀ b ∈ f y, cmp a b ≠ .eq) →
      (l.flatMap fun x => (f x).zipIdx).Pairwise fun p q => cmp p.1 q.1 = .eq → p.2 < q.2 := by
    intro l hsep
    refine List.pairwise_flatMap.2 ⟨fun x _ => ?_, ?_⟩
    · refine (pairwise_zipIdx (f x) 0).imp ?_
      intro p q h _
      exact h
    · refine hsep.imp fun {x y} h p hp q hq hpq => ?_
      exact absurd hpq (h p.1 (List.fst_mem_of_mem_zipIdx hp) q.1 (List.fst_mem_of_mem_zipIdx hq))
  have hsep' : l'.Pairwise fun x y => ∀ a ∈ f x, ∀ b ∈ f y, cmp a b ≠ .eq :=
    hl.pairwise hsep fun {x y} h b hb a ha he => h a ha b hb (Std.OrientedCmp.eq_symm he)
  have hmarked : (l.flatMap fun x => (f x).zipIdx).mergeSort (fun p q => (cmp p.1 q.1).isLE) =
      (l'.flatMap fun x => (f x).zipIdx).mergeSort fun p q => (cmp p.1 q.1).isLE := by
    refine List.Perm.eq_of_pairwise (fun p q _ _ h h' => ?_)
      (pairwise_mergeSort_of_ties (hties hsep)) (pairwise_mergeSort_of_ties (hties hsep')) ?_
    · have hswap : cmp p.1 q.1 = (cmp q.1 p.1).swap := Std.OrientedCmp.eq_swap
      rcases h with h | ⟨h, hlt⟩ <;> rcases h' with h' | ⟨h', hlt'⟩
      case inr.inr => exact absurd hlt (Nat.lt_asymm hlt')
      all_goals rw [h, h'] at hswap; cases hswap
    · exact (List.mergeSort_perm _ _).trans
        ((hl.flatMap_right _).trans (List.mergeSort_perm _ _).symm)
  have hforget : ∀ l : List β, ((l.flatMap fun x => (f x).zipIdx).mergeSort
      fun p q => (cmp p.1 q.1).isLE).map Prod.fst =
        (l.flatMap f).mergeSort fun a b => (cmp a b).isLE := by
    intro l
    rw [List.map_mergeSort (s := fun a b => (cmp a b).isLE) fun _ _ _ _ => rfl, List.map_flatMap]
    simp
  rw [← hforget, hmarked, hforget]

/-- The first element of a sorted list that satisfies a condition is one than which
    none that does is smaller. -/
theorem find?_mergeSort_le {cmp : α → α → Ordering} [Std.TransCmp cmp] {l : List α}
    {test : α → Bool} {a : α} (h : (l.mergeSort fun x y => (cmp x y).isLE).find? test = some a) :
    a ∈ l ∧ test a = true ∧ ∀ b ∈ l, test b = true → cmp b a ≠ .lt := by
  obtain ⟨ha, before, after, hl, hbefore⟩ := List.find?_eq_some_iff_append.1 h
  have hmem : ∀ {b}, b ∈ l ↔ b ∈ before ++ a :: after := fun {b} => by
    rw [← hl, List.mem_mergeSort]
  have hsorted : (l.mergeSort fun x y => (cmp x y).isLE).Pairwise fun x y => (cmp x y).isLE :=
    List.pairwise_mergeSort (fun _ _ _ => Std.TransCmp.isLE_trans) (isLE_total cmp) l
  rw [hl, List.pairwise_append, List.pairwise_cons] at hsorted
  refine ⟨hmem.2 (by simp), ha, fun b hb hb' hlt => ?_⟩
  rcases List.mem_append.1 (hmem.1 hb) with hb | hb
  · have hfalse := hbefore b hb
    rw [hb'] at hfalse
    cases hfalse
  · rcases List.mem_cons.1 hb with rfl | hb
    · cases hlt.symm.trans (Std.ReflCmp.compare_self : cmp b b = .eq)
    · exact Std.OrientedCmp.not_isLE_of_lt hlt (hsorted.2.1.1 b hb)

end Sorting
end Matchbook
