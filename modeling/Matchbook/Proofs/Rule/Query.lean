/-
  The query of a chain against its rules.

  * `Rule.filters_iff`: the filters of a rule that a store can look up are
    satisfied by exactly the candidates that pass the rule;
  * `Chain.query_accepts_iff`: so are those of a chain, whichever rules it has and
    in whatever order; no candidate that it accepts is missed
    (`query_accepts_of_accepts`);
  * `Chain.length_comparedFields`: the query compares one field at most, so a store
    does not refuse it;
  * `Chain.query_says_rules` puts these together.
-/
import Matchbook.Proofs.Except
import Matchbook.Rule.Chain
import Matchbook.Store.Basic

namespace Matchbook

namespace Rule

/-- Whether a store can look the rule up. -/
def isLookedUp : Rule → Bool
  | startTime | price | distinctMaker => false
  | _ => true

theorem isLookedUp_iff {rule : Rule} : rule.isLookedUp = true ↔
    rule ≠ .startTime ∧ rule ≠ .price ∧ rule ≠ .distinctMaker := by
  cases rule <;> simp [isLookedUp]

/-- A condition that a rule requires holds if there is no violation. -/
theorem require_eq_none {holds : Bool} {v : Violation} :
    require holds v = .ok none ↔ holds = true := by
  cases holds <;> simp [require]

theorem status_name_inj {s t : Status} : s.name = t.name ↔ s = t := by
  cases s <;> cases t <;> decide

theorem value_tokenId (i : OrderItem) : i.value .tokenId = i.token?.elim .null .str := by
  show Value.ofText? i.tokenId = _
  unfold Value.ofText? OrderItem.token?
  cases nonempty? i.tokenId <;> rfl

theorem value_taker (i : OrderItem) : i.value .taker = i.reservedFor?.elim .null .str := by
  show Value.ofText? i.taker = _
  unfold Value.ofText? OrderItem.reservedFor?
  cases nonempty? i.taker <;> rfl

theorem equal_iff {f : Field} {v : Value} {i : OrderItem} :
    (∀ g ∈ [Filter.equal f v], g.accepts i = true) ↔ i.value f = v := by
  simp [Filter.accepts]

/-- A text rule: both items have the same text. -/
theorem equal_str_iff {f : Field} {a b : String} {v : Violation} {i : OrderItem}
    (hf : i.value f = .str b) : (∀ g ∈ [Filter.equal f (.str a)], g.accepts i = true) ↔
      require (a == b) v = .ok none := by
  rw [equal_iff, require_eq_none, hf, beq_iff_eq, Value.str.injEq]
  exact eq_comm

theorem range_endTime_iff {t : UInt64} {i : OrderItem} :
    (∀ g ∈ [Filter.range .endTime .ge (.int t)], g.accepts i = true) ↔ t ≤ i.endTime := by
  have hc : compare (i.value .endTime) (.int t) = compare i.endTime t := rfl
  have hn : (i.value .endTime != .null) = true := rfl
  simp only [List.mem_singleton, forall_eq, Filter.accepts, hn, hc, Bool.true_and]
  show (compare i.endTime t != .lt) = true ↔ _
  rw [bne_iff_ne, ne_eq, Std.compare_eq_lt]
  exact UInt64.not_lt

theorem checkToken_eq_none {item candidate : OrderItem} : checkToken item candidate = none ↔
    ∀ i c, item.token? = some i → candidate.token? = some c → i = c := by
  unfold checkToken
  cases item.token? <;> cases candidate.token? <;> simp

theorem checkTaker_eq_none {item candidate : OrderItem} : checkTaker item candidate = none ↔
    (∀ t, item.reservedFor? = some t → t = candidate.maker) ∧
      ∀ t, candidate.reservedFor? = some t → t = item.maker := by
  have hfilter : ∀ {o : Option String} {maker : String},
      o.filter (· != maker) = none ↔ ∀ t, o = some t → t = maker := by
    intro o maker
    cases o <;> simp [Option.filter]
  unfold checkTaker
  rw [← hfilter, ← hfilter]
  cases item.reservedFor?.filter (· != candidate.maker) <;> simp

/-- The filters of a rule say what the rule says. -/
theorem filters_iff {rule : Rule} (hr : rule.isLookedUp = true) (item candidate : OrderItem) :
    (∀ f ∈ rule.filters item, f.accepts candidate = true) ↔
      rule.check item candidate = .ok none := by
  cases rule with
  | startTime | price | distinctMaker => cases hr
  | status =>
    rw [filters, equal_iff, check, require_eq_none, beq_iff_eq, OrderItem.value, Value.str.injEq]
    exact status_name_inj
  | side =>
    rw [filters, equal_iff, check, require_eq_none, OrderItem.value, Value.bool.injEq]
    cases item.isSell <;> cases candidate.isSell <;> decide
  | chainId => exact equal_str_iff rfl
  | collection => exact equal_str_iff rfl
  | quantity =>
    rw [filters, equal_iff, check, require_eq_none, beq_iff_eq, OrderItem.value, Value.int.injEq,
      UInt32.toUInt64_inj]
    exact eq_comm
  | complication => exact equal_str_iff rfl
  | currency => exact equal_str_iff rfl
  | endTime => rw [filters, range_endTime_iff, check, require_eq_none, decide_eq_true_iff]
  | tokenId =>
    rw [check, Except.ok.injEq, checkToken_eq_none, filters]
    cases item.token? with
    | none => simp
    | some i =>
      simp only [List.mem_singleton, forall_eq, Filter.accepts, value_tokenId]
      cases candidate.token? <;> simp [eq_comm]
  | taker =>
    have hmaker : candidate.value .maker = .str candidate.maker := rfl
    rw [check, Except.ok.injEq, checkTaker_eq_none, filters, and_comm]
    cases item.reservedFor? with
    | none =>
      simp only [List.mem_singleton, forall_eq, Filter.accepts, value_taker]
      cases candidate.reservedFor? <;> simp
    | some t =>
      simp only [List.mem_cons, forall_eq_or_imp, List.not_mem_nil, false_imp_iff, Filter.accepts,
        value_taker, hmaker]
      cases candidate.reservedFor? <;> simp [eq_comm (a := t)]

theorem filters_eq_nil {rule : Rule} (hr : rule.isLookedUp = false) (item : OrderItem) :
    rule.filters item = [] := by
  cases rule <;> first | rfl | cases hr

/-- Only the end of the window is compared. -/
theorem field_eq_of_isRange {rule : Rule} {item : OrderItem} {f : Filter}
    (hf : f ∈ rule.filters item) (hr : f.isRange = true) : f.field = .endTime := by
  cases rule with
  | endTime => rw [List.mem_singleton.1 hf]; rfl
  | startTime | price | distinctMaker => cases hf
  | tokenId =>
    simp only [filters] at hf
    split at hf
    · rw [List.mem_singleton.1 hf] at hr
      cases hr
    · cases hf
  | taker =>
    rcases List.mem_cons.1 hf with rfl | hf
    · cases hr
    · split at hf
      · rw [List.mem_singleton.1 hf] at hr
        cases hr
      · cases hf
  | _ =>
    rw [List.mem_singleton.1 hf] at hr
    cases hr

end Rule

namespace Chain

theorem violations_cons (rule : Rule) (chain : Chain) (item candidate : OrderItem) :
    violations (rule :: chain) item candidate = do
      let v ← rule.check item candidate
      let vs ← chain.violations item candidate
      return v.toList ++ vs := by
  unfold violations
  rw [List.mapM_cons]
  cases rule.check item candidate with
  | error e => rfl
  | ok v =>
    cases chain.mapM (·.check item candidate) with
    | error e => rfl
    | ok vs => cases v <;> rfl

/-- A chain accepts what has no violations. -/
theorem violations_eq_nil_iff {chain : Chain} {item candidate : OrderItem} :
    chain.violations item candidate = .ok [] ↔ chain.accepts item candidate = .ok true := by
  rw [accepts, bind_eq_ok]
  constructor
  · exact fun h => ⟨[], h, rfl⟩
  · rintro ⟨vs, hvs, h⟩
    rw [hvs, List.isEmpty_iff.1 (pure_eq_ok.1 h)]

/-- A chain accepts a candidate if no rule is broken. -/
theorem accepts_iff {chain : Chain} {item candidate : OrderItem} :
    chain.accepts item candidate = .ok true ↔
      ∀ rule ∈ chain, rule.check item candidate = .ok none := by
  rw [← violations_eq_nil_iff]
  induction chain with
  | nil => exact iff_of_true rfl (by simp)
  | cons rule chain ih =>
    simp only [violations_cons, List.forall_mem_cons, ← ih, bind_eq_ok, pure_eq_ok]
    constructor
    · rintro ⟨v, hv, vs, hvs, h⟩
      obtain ⟨hnil, rfl⟩ := List.append_eq_nil_iff.1 h
      rw [hv, Option.toList_eq_nil_iff.1 hnil]
      exact ⟨rfl, hvs⟩
    · rintro ⟨hv, hvs⟩
      exact ⟨none, hv, [], hvs, rfl⟩

/-- The query asks for what the rules say that a store can look up. -/
theorem query_accepts_iff {chain : Chain} {item candidate : OrderItem} :
    (chain.query item).accepts candidate = true ↔
      ∀ rule ∈ chain, rule.isLookedUp = true → rule.check item candidate = .ok none := by
  rw [Query.accepts, List.all_eq_true]
  simp only [query, List.mem_flatMap]
  constructor
  · intro h rule hrule hr
    exact (Rule.filters_iff hr item candidate).1 fun f hf => h f ⟨rule, hrule, hf⟩
  · rintro h f ⟨rule, hrule, hf⟩
    cases hr : rule.isLookedUp with
    | true => exact (Rule.filters_iff hr item candidate).2 (h rule hrule hr) f hf
    | false =>
      rw [Rule.filters_eq_nil hr] at hf
      cases hf

/-- What a chain accepts is found by its query. -/
theorem query_accepts_of_accepts {chain : Chain} {item candidate : OrderItem}
    (h : chain.accepts item candidate = .ok true) : (chain.query item).accepts candidate = true :=
  query_accepts_iff.2 fun rule hrule _ => accepts_iff.1 h rule hrule

theorem length_comparedFields (chain : Chain) (item : OrderItem) :
    (chain.query item).comparedFields.length ≤ 1 := by
  have hone : Field.all.countP (· == .endTime) = 1 := by decide
  rw [Query.comparedFields, ← List.countP_eq_length_filter, ← hone]
  refine List.countP_mono_left fun field _ h => ?_
  obtain ⟨f, hf, h⟩ := List.any_eq_true.1 h
  obtain ⟨hr, hfield⟩ := Bool.and_eq_true_iff.1 h
  obtain ⟨rule, -, hf⟩ := List.mem_flatMap.1 hf
  rw [← eq_of_beq hfield, Rule.field_eq_of_isRange hf hr]
  rfl

/-- **A query says what its rules say**: it is satisfied by exactly the candidates
    that pass every rule but those of the start time, the price and the distinct
    makers.  So nothing that the chain accepts is missed, and a store gives every
    page of it. -/
theorem query_says_rules (chain : Chain) (item candidate : OrderItem) :
    ((chain.query item).accepts candidate = true ↔
      ∀ rule ∈ chain, rule ≠ .startTime → rule ≠ .price → rule ≠ .distinctMaker →
        rule.check item candidate = .ok none) ∧
    (chain.accepts item candidate = .ok true → (chain.query item).accepts candidate = true) ∧
    (chain.query item).comparedFields.length ≤ 1 ∧
    ∀ (s : Store) (startAfter : Option Cursor) (limit : Option Nat),
      let q := { chain.query item with startAfter, limit }
      s.find q = .ok (q.page s.items.rows) := by
  refine ⟨?_, query_accepts_of_accepts, length_comparedFields chain item,
    fun s startAfter limit => ?_⟩
  · simp only [query_accepts_iff, Rule.isLookedUp_iff, and_imp]
  · -- the filters alone decide which fields are compared
    intro q
    have hone : ¬ 1 < q.comparedFields.length := Nat.not_lt.2 (length_comparedFields chain item)
    rw [Store.find, if_neg hone]

end Chain
end Matchbook
