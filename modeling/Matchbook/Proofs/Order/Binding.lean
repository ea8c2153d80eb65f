/-
  Orders that are bound to their items.

  * `bind_eq_ok_iff`: an order is bound to items if there are some, all of them name
    the order, and they stand for as many tokens as it says;
  * `LoadedOrder.Bound` is an order with such items, and `Bound.eq_of_pos` says that
    one of an order for one token has a single item that stands for a token.
-/
import Mathlib.Algebra.GroupWithZero.Nat
import Mathlib.Algebra.Order.BigOperators.Group.List
import Mathlib.Algebra.Order.Group.Nat
import Matchbook.Order.Loaded

namespace Matchbook

theorem totalQuantity_eq_some_iff {items : List OrderItem} {n : UInt32} :
    totalQuantity items = some n ↔ (items.map (·.quantity.toNat)).sum = n.toNat := by
  unfold totalQuantity
  rw [← List.sum_eq_foldr]
  dsimp only
  have hlt := n.toNat_lt
  split
  · next h =>
    rw [Option.some.injEq, ← UInt32.toNat_inj, UInt32.toNat_ofNat_of_lt' h]
  · next h =>
    refine iff_of_false nofun fun heq => h ?_
    rw [heq]
    exact hlt

/-- **Binding**: items are those of an order if there are some, they stand for as many
    tokens as it says, and all of them name it. -/
theorem Order.bind_eq_ok_iff {order : Order} {items : List OrderItem} {o : LoadedOrder} :
    order.bind items = .ok o ↔ o = ⟨order, items⟩ ∧ items ≠ [] ∧
      (items.map (·.quantity.toNat)).sum = order.numItems.toNat ∧
        ∀ i ∈ items, i.orderId = order.id := by
  unfold Order.bind
  by_cases hempty : items = []
  · simp [hempty]
  rw [if_neg (by simpa using hempty)]
  cases htotal : totalQuantity items with
  | none =>
    have hsum : (items.map (·.quantity.toNat)).sum ≠ order.numItems.toNat := fun h => by
      rw [totalQuantity_eq_some_iff.2 h] at htotal
      cases htotal
    simp [hsum]
  | some total =>
    rw [totalQuantity_eq_some_iff] at htotal
    dsimp only
    by_cases hnum : total = order.numItems
    · rw [if_neg (by simp [hnum])]
      cases hstray : items.find? fun i => i.orderId != order.id with
      | some stray =>
        have hmem := List.mem_of_find?_eq_some hstray
        have hne := List.find?_some hstray
        refine iff_of_false nofun fun h => ?_
        simp [h.2.2.2 stray hmem] at hne
      | none =>
        have hnames : ∀ i ∈ items, i.orderId = order.id := by
          simpa using List.find?_eq_none.1 hstray
        rw [Except.ok.injEq]
        exact ⟨fun h => ⟨h.symm, hempty, hnum ▸ htotal, hnames⟩, fun h => h.1.symm⟩
    · rw [if_pos (by simp [hnum]), htotal]
      refine iff_of_false nofun fun h => hnum (UInt32.toNat_inj.1 h.2.2.1)

/-- A list of numbers that add up to one at most has a single one that is not zero. -/
theorem eq_of_sum_le_one : ∀ {l : List Nat} {j k m n : Nat}, l.sum ≤ 1 → l[j]? = some m →
    l[k]? = some n → 0 < m → 0 < n → j = k
  | _ :: _, 0, 0, _, _, _, _, _, _, _ => rfl
  | a :: l, 0, k + 1, m, n, h, hj, hk, hm, hn => by
    have hle := List.le_sum_of_mem (List.mem_of_getElem? (l := l) hk)
    obtain rfl : a = m := Option.some.inj hj
    rw [List.sum_cons] at h
    omega
  | a :: l, j + 1, 0, m, n, h, hj, hk, hm, hn => by
    have hle := List.le_sum_of_mem (List.mem_of_getElem? (l := l) hj)
    obtain rfl : a = n := Option.some.inj hk
    rw [List.sum_cons] at h
    omega
  | a :: l, j + 1, k + 1, m, n, h, hj, hk, hm, hn => by
    rw [List.sum_cons] at h
    rw [eq_of_sum_le_one (l := l) (by omega) hj hk hm hn]

namespace LoadedOrder

/-- The order is bound to its items. -/
def Bound (o : LoadedOrder) : Prop := o.order.bind o.items = .ok o

instance (o : LoadedOrder) : Decidable o.Bound :=
  match h : o.order.bind o.items with
  | .error _ => isFalse fun h' => by cases h.symm.trans h'
  | .ok o' =>
    decidable_of_iff (o' = o) ⟨fun h' => h' ▸ h, fun h' => Except.ok.inj (h.symm.trans h')⟩

namespace Bound

variable {o : LoadedOrder} (h : o.Bound)
include h

theorem total : (o.items.map (·.quantity.toNat)).sum = o.order.numItems.toNat :=
  (Order.bind_eq_ok_iff.1 h).2.2.1

theorem orderId {i : OrderItem} (hi : i ∈ o.items) : i.orderId = o.order.id :=
  (Order.bind_eq_ok_iff.1 h).2.2.2 i hi

/-- An order for one token has a single item that stands for one. -/
theorem eq_of_pos (hone : o.order.numItems = 1) {j k : Nat} {i i' : OrderItem}
    (hj : o.items[j]? = some i) (hk : o.items[k]? = some i') (hi : 0 < i.quantity.toNat)
    (hi' : 0 < i'.quantity.toNat) : j = k := by
  have htotal : (o.items.map (·.quantity.toNat)).sum = 1 := by
    rw [h.total, hone]
    rfl
  exact eq_of_sum_le_one htotal.le (by simp [hj]) (by simp [hk]) hi hi'

/-- All of its items that stand for a token are the same. -/
theorem eq_of_mem (hone : o.order.numItems = 1) {i i' : OrderItem} (hi : i ∈ o.items)
    (hi' : i' ∈ o.items) (hpos : 0 < i.quantity.toNat) (hpos' : 0 < i'.quantity.toNat) :
    i = i' := by
  obtain ⟨j, hj⟩ := List.getElem?_of_mem hi
  obtain ⟨k, hk⟩ := List.getElem?_of_mem hi'
  rw [h.eq_of_pos hone hj hk hpos hpos', hk] at hj
  exact (Option.some.inj hj).symm

/-- An item of an order for one token stands for one at most. -/
theorem quantity_le_one (hone : o.order.numItems = 1) {i : OrderItem} (hi : i ∈ o.items) :
    i.quantity.toNat ≤ 1 := by
  have hle := List.le_sum_of_mem (List.mem_map_of_mem (f := (·.quantity.toNat)) hi)
  rwa [h.total, hone] at hle

end Bound
end LoadedOrder
end Matchbook
