/-
  Rules for the items of one order.

  * `OrderItem.Carries`: the item repeats what its order says for all of its items;
  * `Rule.check_of_carries`: only the rules of the collection, the token and the quantity
    tell such items apart, so these decide what the chain accepts for one of them but not
    for another (`Chain.accepts_of_carries`);
  * `Chain.standard_accepts`: what those rules say of items that the standard chain accepts.
-/
import Matchbook.Proofs.Rule.Query

namespace Matchbook

/-- The item repeats what the order says for all of its items. -/
def OrderItem.Carries (i : OrderItem) (order : Order) : Prop :=
  i = { OrderItem.ofOrder order i.id i.collection i.tokenId i.quantity with
    numTokens := i.numTokens }

instance (i : OrderItem) (order : Order) : Decidable (i.Carries order) :=
  inferInstanceAs (Decidable (_ = _))

variable {order : Order} {i j candidate : OrderItem}

namespace OrderItem

/-- All items of an order have its window. -/
theorem Carries.window (h : i.Carries order) :
    i.startTime = order.startTime ∧ i.endTime = order.endTime := by
  rw [h]
  exact ⟨rfl, rfl⟩

/-- An item that names a token has it in its document. -/
theorem tokenId_of_token? {token : String} (h : i.token? = some token) : i.tokenId = some token :=
  (Option.filter_eq_some_iff.1 h).1

end OrderItem

/-- A rule tells the items of an order apart by the collection, the token or the amount
    only. -/
theorem Rule.check_of_carries {rule : Rule} (hi : i.Carries order) (hj : j.Carries order)
    (hr : rule ≠ .collection ∧ rule ≠ .tokenId ∧ rule ≠ .quantity) :
    rule.check i candidate = rule.check j candidate := by
  rw [hi, hj]
  cases rule with
  | collection => exact absurd rfl hr.1
  | tokenId => exact absurd rfl hr.2.1
  | quantity => exact absurd rfl hr.2.2
  | price =>
    unfold check checkPrice
    simp only [apply_ite OrderItem.numItems]
    rfl
  | _ => rfl

namespace Chain

/-- What is accepted for one item of an order is accepted for another that has the same
    collection and amount, if it names no other token. -/
theorem accepts_of_carries {chain : Chain} (hi : i.Carries order) (hj : j.Carries order)
    (hcollection : i.collection = j.collection) (hamount : i.numTokens = j.numTokens)
    (htoken : ∀ s t, j.token? = some s → candidate.token? = some t → s = t)
    (h : chain.accepts i candidate = .ok true) : chain.accepts j candidate = .ok true := by
  rw [accepts_iff] at h ⊢
  intro rule hrule
  have hpasses := h rule hrule
  by_cases hr : rule ≠ .collection ∧ rule ≠ .tokenId ∧ rule ≠ .quantity
  · rwa [← Rule.check_of_carries hi hj hr]
  · cases rule with
    | collection => rwa [Rule.check, ← hcollection]
    | tokenId => exact congrArg Except.ok (Rule.checkToken_eq_none.2 htoken)
    | quantity => rwa [Rule.check, ← hamount]
    | _ => simp at hr

/-- An item that the standard chain accepts is of the same collection and amount, and names
    no other token. -/
theorem standard_accepts (h : standard.accepts i candidate = .ok true) :
    i.collection = candidate.collection ∧ i.numTokens = candidate.numTokens ∧
      ∀ s t, i.token? = some s → candidate.token? = some t → s = t := by
  have hpasses : ∀ rule : Rule, rule.check i candidate = .ok none := fun rule =>
    accepts_iff.1 h rule (Rule.mem_all rule)
  refine ⟨?_, ?_, ?_⟩
  · exact eq_of_beq (Rule.require_eq_none.1 (hpasses .collection))
  · exact eq_of_beq (Rule.require_eq_none.1 (hpasses .quantity))
  · exact Rule.checkToken_eq_none.1 (Except.ok.inj (hpasses .tokenId))

end Chain
end Matchbook
