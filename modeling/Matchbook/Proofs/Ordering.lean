/-
  Comparing values, whatever they are.

  * `isLE_total`: any two values compare, one way or the other;
  * `transCmp_on`: an order of some values orders what they are values of.
-/

namespace Matchbook

variable {α β : Type}

/-- Any two values compare, one way or the other. -/
theorem isLE_total (cmp : α → α → Ordering) [Std.OrientedCmp cmp] (a b : α) :
    ((cmp a b).isLE || (cmp b a).isLE) = true := by
  rw [show cmp b a = (cmp a b).swap from Std.OrientedCmp.eq_swap]
  cases cmp a b <;> rfl

/-- An order of some values orders what they are values of. -/
theorem transCmp_on (cmp : β → β → Ordering) [Std.TransCmp cmp] (f : α → β) :
    Std.TransCmp fun a b => cmp (f a) (f b) where
  eq_swap := Std.OrientedCmp.eq_swap
  isLE_trans {a b c} h h' := by
    have htrans : (cmp (f a) (f c)).isLE := Std.TransCmp.isLE_trans h h'
    exact htrans

end Matchbook
