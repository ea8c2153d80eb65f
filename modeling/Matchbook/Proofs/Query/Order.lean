/-
  The order of a query, and what its pages have in common.

  * Values are ordered totally, so are the places of items, and two items at one
    place have one id;
  * `Query.found` are all items that a query finds; where no two items have one
    id its order is strict, so it is determined by the items alone
    (`Query.sort_filter`);
  * `Query.found_behind`: resuming behind an item finds what is left behind it, and
    behind a page what is not on it (`found_behind_page`).
-/
import Matchbook.Proofs.Ordering
import Matchbook.Query.Basic

namespace Matchbook

/-! ## Values and places -/

namespace Value

theorem compare_def (a b : Value) : Ord.compare a b = a.compare b := rfl

instance : Std.OrientedOrd Value where
  eq_swap {a b} := by
    cases a <;> cases b <;> simp only [compare_def, compare]
    case null.null => rfl
    case bool.bool => exact Std.OrientedOrd.eq_swap
    case int.int => exact Std.OrientedOrd.eq_swap
    case str.str => exact Std.OrientedOrd.eq_swap
    all_goals rfl

instance : Std.TransOrd Value where
  isLE_trans {a b c} hab hbc := by
    cases a <;> cases b <;> cases c <;> simp only [compare_def, compare] at hab hbc ⊢
    case bool.bool.bool => exact Std.TransOrd.isLE_trans hab hbc
    case int.int.int => exact Std.TransOrd.isLE_trans hab hbc
    case str.str.str => exact Std.TransOrd.isLE_trans hab hbc
    all_goals first | rfl | exact absurd hab (by decide) | exact absurd hbc (by decide)

instance : Std.LawfulEqOrd Value where
  compare_self {a} := by
    cases a with
    | null => rfl
    | bool b => exact Std.ReflOrd.compare_self (a := b)
    | int n => exact Std.ReflOrd.compare_self (a := n)
    | str s => exact Std.ReflOrd.compare_self (a := s)
  eq_of_compare {a b} h := by
    cases a <;> cases b <;> simp only [compare_def, compare] at h
    case null.null => rfl
    case bool.bool => rw [Std.LawfulEqOrd.eq_of_compare h]
    case int.int => rw [Std.LawfulEqOrd.eq_of_compare h]
    case str.str => rw [Std.LawfulEqOrd.eq_of_compare h]
    all_goals cases h

end Value

namespace SortKey

/-- The order of items is that of their places. -/
theorem compare_def (key : SortKey) (a b : OrderItem) :
    key.compare a b = Ord.compare (key.cursor a) (key.cursor b) := rfl

instance (key : SortKey) : Std.TransCmp key.compare where
  eq_swap := Std.OrientedOrd.eq_swap (α := Cursor)
  isLE_trans := Std.TransOrd.isLE_trans (α := Cursor)

/-- Two items at one place have one id. -/
theorem id_eq_of_compare {key : SortKey} {a b : OrderItem} (h : key.compare a b = .eq) :
    a.id = b.id := by
  have hc : key.cursor a = key.cursor b := Std.LawfulEqOrd.eq_of_compare h
  simp only [cursor, fields, List.map_append, List.map_cons, List.map_nil] at hc
  have hid := (List.append_inj' hc rfl).2
  simpa [OrderItem.value] using hid

end SortKey

/-! ## What a query finds -/

namespace Query

/-- No two items have one id. -/
def Distinct (items : List OrderItem) : Prop := items.Pairwise fun a b => a.id ≠ b.id

/-- All items that match and come behind the query's place, in its order. -/
def found (q : Query) (items : List OrderItem) : List OrderItem :=
  q.sort (items.filter fun i => q.accepts i && q.isAfter i)

theorem page_eq {q : Query} {n : Nat} (h : q.limit = some n) (items : List OrderItem) :
    q.page items = (q.found items).take n := by simp [page, found, h]

theorem sort_perm (q : Query) (items : List OrderItem) : (q.sort items).Perm items :=
  List.mergeSort_perm _ _

theorem mem_sort {q : Query} {items : List OrderItem} {i : OrderItem} :
    i ∈ q.sort items ↔ i ∈ items := (q.sort_perm items).mem_iff

theorem mem_found {q : Query} {items : List OrderItem} {i : OrderItem} :
    i ∈ q.found items ↔ i ∈ items ∧ q.accepts i = true ∧ q.isAfter i = true := by
  simp [found, mem_sort]

/-- The order is strict where no two items have one id. -/
theorem sort_pairwise (q : Query) {items : List OrderItem} (h : Distinct items) :
    (q.sort items).Pairwise fun a b => q.sortKey.compare a b = .lt := by
  have hle : (q.sort items).Pairwise fun a b => (q.sortKey.compare a b).isLE = true :=
    List.pairwise_mergeSort (fun _ _ _ => Std.TransCmp.isLE_trans)
      (isLE_total q.sortKey.compare) items
  have hne : Distinct (q.sort items) := (q.sort_perm items).symm.pairwise h fun hab => hab.symm
  refine (hle.and hne).imp fun {a b} ⟨hab, hid⟩ => ?_
  cases hc : q.sortKey.compare a b with
  | lt => rfl
  | eq => exact absurd (SortKey.id_eq_of_compare hc) hid
  | gt =>
    rw [hc] at hab
    cases hab

/-- A strictly ordered list has no repetition. -/
theorem nodup_of_pairwise {key : SortKey} {l : List OrderItem}
    (h : l.Pairwise fun a b => key.compare a b = .lt) : l.Nodup := by
  refine h.imp fun {a b} hab he => ?_
  rw [he, show key.compare b b = .eq from Std.ReflCmp.compare_self] at hab
  cases hab

/-- Two strictly ordered lists of the same items are the same list. -/
theorem eq_of_perm {key : SortKey} {l l' : List OrderItem}
    (h : l.Pairwise fun a b => key.compare a b = .lt)
    (h' : l'.Pairwise fun a b => key.compare a b = .lt) (hp : l.Perm l') : l = l' := by
  refine List.Perm.eq_of_pairwise (fun a b _ _ hab hba => ?_) h h' hp
  exact absurd hba (Std.OrientedCmp.not_lt_of_lt hab)

/-- Choosing items before they are put in order or behind it comes to the same. -/
theorem sort_filter (q : Query) {items : List OrderItem} (h : Distinct items)
    (test : OrderItem → Bool) : q.sort (items.filter test) = (q.sort items).filter test :=
  eq_of_perm (q.sort_pairwise (h.filter test)) ((q.sort_pairwise h).filter test)
    ((q.sort_perm _).trans ((q.sort_perm items).symm.filter test))

/-- What comes strictly behind an element of an ordered list is the rest of it. -/
theorem filter_behind {key : SortKey} {xs ys : List OrderItem} {x : OrderItem}
    (h : (xs ++ x :: ys).Pairwise fun a b => key.compare a b = .lt) :
    (xs ++ x :: ys).filter (fun i => key.compare i x == .gt) = ys := by
  obtain ⟨-, hy, hxy⟩ := List.pairwise_append.1 h
  have hys : ∀ i ∈ ys, (key.compare i x == .gt) = true := by
    intro i hi
    exact beq_iff_eq.2 (Std.OrientedCmp.gt_of_lt ((List.pairwise_cons.1 hy).1 i hi))
  have hxs : ∀ i ∈ xs, ¬ (key.compare i x == .gt) = true := by
    intro i hi
    rw [hxy i hi x List.mem_cons_self]
    decide
  have hx : ¬ (key.compare x x == .gt) = true := by
    rw [show key.compare x x = .eq from Std.ReflCmp.compare_self]
    decide
  rw [List.filter_append, List.filter_eq_nil_iff.2 hxs, List.nil_append, List.filter_cons,
    if_neg hx]
  exact List.filter_eq_self.2 hys

/-- The query that resumes behind an item. -/
def behind (q : Query) (x : OrderItem) : Query :=
  { q with startAfter := some (q.sortKey.cursor x) }

/-- Resuming behind an item that is found finds what comes behind it. -/
theorem found_behind (q : Query) {items : List OrderItem} (h : Distinct items)
    {xs ys : List OrderItem} {x : OrderItem} (hx : q.found items = xs ++ x :: ys) :
    (q.behind x).found items = ys := by
  have hsorted := q.sort_pairwise (h.filter fun i => q.accepts i && q.isAfter i)
  have hmem : x ∈ q.found items := by simp [hx]
  have hfound : (q.behind x).found items =
      (q.found items).filter fun i => q.sortKey.compare i x == .gt := by
    show q.sort (items.filter fun i => q.accepts i && (q.sortKey.compare i x == .gt)) = _
    rw [found, ← sort_filter q (h.filter _), List.filter_filter]
    congr 1
    refine List.filter_congr fun i _ => ?_
    -- what comes behind `x` comes behind the place of the query
    have hafter : q.sortKey.compare i x = .gt → q.isAfter i = true := by
      intro hi
      have hxa := (mem_found.1 hmem).2.2
      cases hs : q.startAfter with
      | none => simp [isAfter, hs]
      | some cursor =>
        simp only [isAfter, hs, beq_iff_eq] at hxa ⊢
        exact Std.TransCmp.gt_trans hi hxa
    cases hi : q.sortKey.compare i x == .gt with
    | true => simp [hafter (by simpa using hi)]
    | false => simp
  rw [hfound, hx]
  exact filter_behind (hx ▸ hsorted)

/-- Resuming behind a page finds all that is not on it. -/
theorem found_behind_page (q : Query) {items : List OrderItem} (h : Distinct items) {n : Nat}
    {last : OrderItem} (hlast : ((q.found items).take n).getLast? = some last) :
    (q.behind last).found items = (q.found items).drop n := by
  obtain ⟨xs, hxs⟩ := List.getLast?_eq_some_iff.1 hlast
  have hsplit : q.found items = xs ++ last :: (q.found items).drop n := by
    calc q.found items = (q.found items).take n ++ (q.found items).drop n :=
          (List.take_append_drop n _).symm
      _ = xs ++ last :: (q.found items).drop n := by
          rw [hxs, List.append_assoc, List.singleton_append]
  exact q.found_behind h hsplit

end Query
end Matchbook
