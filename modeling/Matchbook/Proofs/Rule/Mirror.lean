/-
  Rules seen from the other side.

  * `Rule.mirror` is what a rule says when the item and the candidate change places:
    the rules of the two ends of the window do so too;
  * `Rule.passes_mirror`: but for the status, which only the candidate has to have,
    every rule is as strict from either side;
  * `Chain.accepts_mirror`: active items accept each other or not, if the chain has
    the mirror of each of its rules.
-/
import Matchbook.Proofs.Rule.Query

namespace Matchbook

/-! ## Crossings -/

/-- The curves of two items cross where they do, whichever is looked at first. -/
theorem OrderItem.crossingWith_comm (i j : OrderItem) : j.crossingWith i = i.crossingWith j := by
  unfold crossingWith
  cases i.side <;> cases j.side <;> rfl

/-- The listing among two items of different sides is of several tokens: a single offer is
    not held against it, as it is only priced as a whole. -/
def OrderItem.isPricedWhole (i j : OrderItem) : Bool :=
  i.isSell != j.isSell && decide (1 < (if i.isSell then i else j).numItems)

theorem OrderItem.isPricedWhole_comm (i j : OrderItem) : j.isPricedWhole i = i.isPricedWhole j := by
  unfold isPricedWhole
  cases i.isSell <;> cases j.isSell <;> rfl

namespace Rule

/-- What the rule says when the item and the candidate change places. -/
def mirror : Rule → Rule
  | endTime => startTime
  | startTime => endTime
  | rule => rule

/-- Whether the candidate passes the rule. -/
def passes (rule : Rule) (item candidate : OrderItem) : Except ArithmeticError Bool :=
  (rule.check item candidate).map Option.isNone

/-! ## One rule -/

theorem passes_eq_true_iff {rule : Rule} {item candidate : OrderItem} :
    rule.passes item candidate = .ok true ↔ rule.check item candidate = .ok none := by
  unfold passes
  cases rule.check item candidate with
  | error e => simp [Except.map]
  | ok v => simp [Except.map]

/-- It can be told whether a candidate passes if the rule can be computed. -/
theorem passes_computes_iff {rule : Rule} {item candidate : OrderItem} :
    (∃ p, rule.passes item candidate = .ok p) ↔ ∃ v, rule.check item candidate = .ok v := by
  unfold passes
  cases rule.check item candidate with
  | error e => simp [Except.map]
  | ok v => simp [Except.map]

theorem map_isNone_require (holds : Bool) (v : Violation) :
    (require holds v).map Option.isNone = .ok holds := by cases holds <;> rfl

theorem isNone_checkToken_comm (i j : OrderItem) :
    (checkToken j i).isNone = (checkToken i j).isNone := by
  rw [Bool.eq_iff_iff, Option.isNone_iff_eq_none, Option.isNone_iff_eq_none, checkToken_eq_none,
    checkToken_eq_none]
  exact ⟨fun h s t hs ht => (h t s ht hs).symm, fun h s t hs ht => (h t s ht hs).symm⟩

theorem isNone_checkTaker_comm (i j : OrderItem) :
    (checkTaker j i).isNone = (checkTaker i j).isNone := by
  rw [Bool.eq_iff_iff, Option.isNone_iff_eq_none, Option.isNone_iff_eq_none, checkTaker_eq_none,
    checkTaker_eq_none, and_comm]

theorem checkPrice_eq (i j : OrderItem) : checkPrice i j =
    if i.isPricedWhole j then .ok none
    else (i.crossingWith j).map fun
      | some _ => none
      | none => some (.neverCross i.ramp j.ramp) := by
  unfold checkPrice OrderItem.isPricedWhole
  cases i.crossingWith j with
  | error e => rfl
  | ok deal => cases deal <;> rfl

/-- The listing among two items of different sides is the same from either side, and so
    is the crossing. -/
theorem map_isNone_checkPrice_comm (i j : OrderItem) :
    (checkPrice j i).map Option.isNone = (checkPrice i j).map Option.isNone := by
  rw [checkPrice_eq, checkPrice_eq, i.isPricedWhole_comm j, i.crossingWith_comm j]
  cases i.isPricedWhole j with
  | true => rfl
  | false =>
    cases i.crossingWith j with
    | error e => rfl
    | ok found => cases found <;> rfl

/-- **From the other side** a rule is as strict, unless it is that of the status. -/
theorem passes_mirror {rule : Rule} (hr : rule ≠ .status) (item candidate : OrderItem) :
    rule.mirror.passes candidate item = rule.passes item candidate := by
  have hbeq : ∀ {γ : Type} [BEq γ] [LawfulBEq γ] (x y : γ), (x == y) = (y == x) :=
    fun _ _ => BEq.comm
  cases rule with
  | status => exact absurd rfl hr
  | price => exact map_isNone_checkPrice_comm item candidate
  | tokenId => exact congrArg Except.ok (isNone_checkToken_comm item candidate)
  | taker => exact congrArg Except.ok (isNone_checkTaker_comm item candidate)
  | endTime => simp only [passes, mirror, check, map_isNone_require]
  | startTime => simp only [passes, mirror, check, map_isNone_require]
  | side => simp only [passes, mirror, check, map_isNone_require, bne, hbeq candidate.isSell]
  | chainId => simp only [passes, mirror, check, map_isNone_require, hbeq candidate.chainId]
  | collection => simp only [passes, mirror, check, map_isNone_require, hbeq candidate.collection]
  | quantity => simp only [passes, mirror, check, map_isNone_require, hbeq candidate.numTokens]
  | distinctMaker =>
    simp only [passes, mirror, check, map_isNone_require, bne, hbeq (foldCase candidate.maker)]
  | complication =>
    simp only [passes, mirror, check, map_isNone_require, hbeq candidate.complication]
  | currency => simp only [passes, mirror, check, map_isNone_require, hbeq candidate.currency]

theorem passes_status (item : OrderItem) {candidate : OrderItem}
    (h : candidate.status = .validActive) : status.passes item candidate = .ok true := by
  rw [passes, check, map_isNone_require, h]
  rfl

end Rule

/-! ## Chains -/

namespace Chain

/-- A chain can be computed if its rules can. -/
theorem accepts_computes_iff {chain : Chain} {item candidate : OrderItem} :
    (∃ accepted, chain.accepts item candidate = .ok accepted) ↔
      ∀ rule ∈ chain, ∃ v, rule.check item candidate = .ok v := by
  constructor
  · rintro ⟨_, h⟩ rule hrule
    obtain ⟨_, h, -⟩ := bind_eq_ok.1 h
    obtain ⟨_, h, -⟩ := bind_eq_ok.1 h
    exact ⟨_, ((mapM_eq_ok_iff none).1 h).1 rule hrule⟩
  · intro h
    obtain ⟨found, hfound⟩ := exists_mapM_of_forall h
    exact ⟨_, bind_eq_ok.2 ⟨_, bind_eq_ok.2 ⟨found, hfound, rfl⟩, rfl⟩⟩

/-- A chain says of a candidate whether it passes all rules. -/
theorem accepts_eq_ok_iff {chain : Chain} {item candidate : OrderItem} {accepted : Bool} :
    chain.accepts item candidate = .ok accepted ↔
      (∀ rule ∈ chain, ∃ p, rule.passes item candidate = .ok p) ∧
        (accepted = true ↔ ∀ rule ∈ chain, rule.passes item candidate = .ok true) := by
  simp only [Rule.passes_computes_iff, Rule.passes_eq_true_iff, ← accepts_computes_iff,
    ← accepts_iff]
  constructor
  · intro h
    exact ⟨⟨accepted, h⟩, by rw [h, Except.ok.injEq]⟩
  · rintro ⟨⟨accepted', h⟩, hiff⟩
    rw [h, Except.ok.injEq, ← Bool.eq_iff_iff] at hiff
    rw [h, hiff]

/-- **From the other side** active items are accepted likewise by a chain that has the
    mirror of each of its rules. -/
theorem accepts_mirror {chain : Chain} (hchain : ∀ rule ∈ chain, rule.mirror ∈ chain)
    {i j : OrderItem} (hi : i.status = .validActive) (hj : j.status = .validActive)
    {accepted : Bool} : chain.accepts j i = .ok accepted ↔ chain.accepts i j = .ok accepted := by
  have hpasses : ∀ {i j : OrderItem}, i.status = .validActive → j.status = .validActive →
      ∀ {P : Except ArithmeticError Bool → Prop}, (∀ rule ∈ chain, P (rule.passes i j)) →
        ∀ rule ∈ chain, P (rule.passes j i) := by
    intro i j hi hj P h rule hrule
    by_cases hstatus : rule = .status
    · subst hstatus
      rw [Rule.passes_status j hi, ← Rule.passes_status i hj]
      exact h _ hrule
    · rw [← Rule.passes_mirror hstatus]
      exact h _ (hchain rule hrule)
  have hiff : ∀ {P : Except ArithmeticError Bool → Prop}, (∀ rule ∈ chain, P (rule.passes j i)) ↔
      ∀ rule ∈ chain, P (rule.passes i j) := ⟨hpasses hj hi, hpasses hi hj⟩
  rw [accepts_eq_ok_iff, accepts_eq_ok_iff, hiff (P := fun x => ∃ p, x = .ok p),
    hiff (P := fun x => x = .ok true)]

theorem mirror_mem_standard {rule : Rule} (_ : rule ∈ standard) : rule.mirror ∈ standard :=
  Rule.mem_all _

end Chain
end Matchbook
