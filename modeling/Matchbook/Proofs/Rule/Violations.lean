/-
  The violations that a chain finds.

  * `Rule.rule_of_check`: a violation names the rule that found it, so the broken rules
    are those of the chain that the candidate does not pass (`Chain.mem_brokenRules_iff`);
  * `Chain.violations_mirror`: from the other side a chain that has the mirror of each of
    its rules can be computed as well, and the mirrors of the same rules are broken;
  * `Chain.standard_symmetric`: so it is with all rules.
-/
import Mathlib.Data.Set.Image
import Matchbook.Proofs.Rule.Mirror

namespace Matchbook

namespace Rule

/-! ## One rule -/

/-- A violation names the rule that found it. -/
theorem rule_of_check {rule : Rule} {item candidate : OrderItem} {v : Violation}
    (h : rule.check item candidate = .ok (some v)) : v.rule = rule := by
  have hrequire : ∀ {holds : Bool} {w : Violation}, require holds w = .ok (some v) → w = v := by
    intro holds w h
    cases holds with
    | true => cases h
    | false => exact Option.some.inj (Except.ok.inj h)
  cases rule with
  | tokenId =>
    replace h := Except.ok.inj h
    unfold checkToken at h
    split at h
    · split at h
      · cases h
      · rw [← Option.some.inj h]
        rfl
    · cases h
  | taker =>
    replace h := Except.ok.inj h
    unfold checkTaker at h
    split at h
    · rw [← Option.some.inj h]
      rfl
    · obtain ⟨taker, -, rfl⟩ := Option.map_eq_some_iff.1 h
      rfl
  | price =>
    rw [check, checkPrice_eq] at h
    split at h
    · cases h
    · cases hcrossing : item.crossingWith candidate with
      | error e => simp [hcrossing, Except.map] at h
      | ok deal =>
        rw [hcrossing] at h
        cases deal with
        | some deal => cases h
        | none =>
          rw [← Option.some.inj (Except.ok.inj h)]
          rfl
  | _ =>
    rw [← hrequire h]
    rfl

theorem passes_eq_false_iff {rule : Rule} {item candidate : OrderItem} :
    rule.passes item candidate = .ok false ↔ ∃ v, rule.check item candidate = .ok (some v) := by
  unfold passes
  cases rule.check item candidate with
  | error e => simp [Except.map]
  | ok v => cases v <;> simp [Except.map]

/-- Whether an item has the status that a match asks for can always be told. -/
theorem passes_status_computes (item candidate : OrderItem) :
    ∃ p, status.passes item candidate = .ok p :=
  ⟨_, map_isNone_require _ _⟩

@[simp] theorem mirror_mirror (rule : Rule) : rule.mirror.mirror = rule := by cases rule <;> rfl

theorem mirror_ne_status {rule : Rule} : rule.mirror ≠ .status ↔ rule ≠ .status := by
  cases rule <;> simp [mirror]

end Rule

namespace Chain

open Violation (brokenRules mem_brokenRules)

variable {chain : Chain} {i j : OrderItem} {vs : List Violation}

/-! ## A chain -/

/-- The violations of a candidate are those that some rule of the chain finds. -/
theorem mem_violations_iff (h : chain.violations i j = .ok vs) {v : Violation} :
    v ∈ vs ↔ ∃ rule ∈ chain, rule.check i j = .ok (some v) := by
  obtain ⟨found, hfound, h⟩ := bind_eq_ok.1 h
  rw [← pure_eq_ok.1 h, ← mem_mapM_iff hfound]
  simp

/-- The broken rules are those of the chain that the candidate does not pass. -/
theorem mem_brokenRules_iff (h : chain.violations i j = .ok vs) {rule : Rule} :
    rule ∈ brokenRules vs ↔ rule ∈ chain ∧ rule.passes i j = .ok false := by
  rw [mem_brokenRules, Rule.passes_eq_false_iff]
  constructor
  · rintro ⟨v, hv, rfl⟩
    obtain ⟨rule, hrule, hcheck⟩ := (mem_violations_iff h).1 hv
    rw [Rule.rule_of_check hcheck]
    exact ⟨hrule, v, hcheck⟩
  · rintro ⟨hrule, v, hcheck⟩
    exact ⟨v, (mem_violations_iff h).2 ⟨rule, hrule, hcheck⟩, Rule.rule_of_check hcheck⟩

/-- The violations can be listed if it can be told of each rule whether it is passed. -/
theorem violations_computes_iff :
    (∃ vs, chain.violations i j = .ok vs) ↔ ∀ rule ∈ chain, ∃ p, rule.passes i j = .ok p := by
  simp only [Rule.passes_computes_iff, ← accepts_computes_iff]
  constructor
  · rintro ⟨vs, hvs⟩
    exact ⟨_, bind_eq_ok.2 ⟨vs, hvs, rfl⟩⟩
  · rintro ⟨_, h⟩
    obtain ⟨vs, hvs, -⟩ := bind_eq_ok.1 h
    exact ⟨vs, hvs⟩

/-! ## The other side -/

/-- **From the other side** the mirrors of the same rules are broken, but for that of the
    status, and nothing else has to be computed for it. -/
theorem violations_mirror (hchain : ∀ rule ∈ chain, rule.mirror ∈ chain)
    (h : chain.violations i j = .ok vs) : ∃ ws, chain.violations j i = .ok ws ∧
      ∀ rule ≠ Rule.status, rule.mirror ∈ brokenRules ws ↔ rule ∈ brokenRules vs := by
  have hmem : ∀ {rule : Rule}, rule.mirror ∈ chain ↔ rule ∈ chain := fun {rule} =>
    ⟨fun hrule => rule.mirror_mirror ▸ hchain _ hrule, hchain rule⟩
  have hcomputes : ∃ ws, chain.violations j i = .ok ws := by
    refine violations_computes_iff.2 fun rule hrule => ?_
    by_cases hstatus : rule = .status
    · rw [hstatus]
      exact Rule.passes_status_computes j i
    · rw [← rule.mirror_mirror, Rule.passes_mirror (Rule.mirror_ne_status.2 hstatus)]
      exact violations_computes_iff.1 ⟨vs, h⟩ _ (hchain rule hrule)
  obtain ⟨ws, hws⟩ := hcomputes
  refine ⟨ws, hws, fun rule hstatus => ?_⟩
  rw [mem_brokenRules_iff hws, mem_brokenRules_iff h, hmem, Rule.passes_mirror hstatus]

/-- **Validation is symmetric**: where all rules can be computed for a candidate they can
    be for the item as a candidate of it, and then the same rules are broken, but for
    that of the status and with the two ends of the window exchanged.  So active items
    accept each other or not. -/
theorem standard_symmetric (h : standard.violations i j = .ok vs) :
    ∃ ws, standard.violations j i = .ok ws ∧
      {rule | rule ∈ brokenRules ws ∧ rule ≠ .status} =
        Rule.mirror '' {rule | rule ∈ brokenRules vs ∧ rule ≠ .status} ∧
      (i.status = .validActive → j.status = .validActive →
        (standard.accepts j i = .ok true ↔ standard.accepts i j = .ok true)) := by
  have hchain : ∀ rule ∈ standard, rule.mirror ∈ standard := fun _ => mirror_mem_standard
  obtain ⟨ws, hws, hbroken⟩ := violations_mirror hchain h
  refine ⟨ws, hws, Set.ext fun rule => ?_, fun hi hj => accepts_mirror hchain hi hj⟩
  constructor
  · rintro ⟨hrule, hstatus⟩
    have hstatus' := Rule.mirror_ne_status.2 hstatus
    refine ⟨rule.mirror, ⟨?_, hstatus'⟩, rule.mirror_mirror⟩
    rwa [← hbroken _ hstatus', rule.mirror_mirror]
  · rintro ⟨rule, ⟨hrule, hstatus⟩, rfl⟩
    exact ⟨(hbroken rule hstatus).2 hrule, Rule.mirror_ne_status.2 hstatus⟩

/-- The order of `side` for a token, made by `maker`, over a window. -/
def windowOrder (side : Side) (maker : String) (startTime endTime : UInt64) : Order where
  id := maker ++ "'s"
  chainId := "1"
  isSell := side.isSell
  numItems := 1
  startPrice := .ofUInt64 5
  endPrice := .ofUInt64 5
  startTime
  endTime
  maker
  taker := none
  complication := "exchange"
  currency := "WETH"
  status := .validActive

/-- A listing that has ended is not met by an offer of its own maker that starts later and
    is reserved for another; four rules say so from the one side, five from the other. -/
theorem standard_symmetric_ended :
    let ask := OrderItem.ofOrder { windowOrder .sell "alice" 0 4 with status := .validInactive }
      "ask" "collection" (some "7") 1
    let bid := OrderItem.ofOrder { windowOrder .buy "ALICE" 6 10 with taker := some "carol" }
      "bid" "collection" none 1
    ∃ vs ws, standard.violations ask bid = .ok vs ∧ standard.violations bid ask = .ok ws ∧
      vs.length = 4 ∧ ws.length = 5 ∧
      {rule | rule ∈ brokenRules ws ∧ rule ≠ .status} =
        Rule.mirror '' {rule | rule ∈ brokenRules vs ∧ rule ≠ .status} := by
  intro ask bid
  have hlength : ((standard.violations ask bid).map List.length).toOption = some 4 := by
    decide +kernel
  have hlength' : ((standard.violations bid ask).map List.length).toOption = some 5 := by
    decide +kernel
  obtain ⟨vs, hvs, hlen⟩ := toOption_map_eq_some_iff.1 hlength
  obtain ⟨ws, hws, hbroken, -⟩ := standard_symmetric hvs
  rw [hws] at hlength'
  exact ⟨vs, ws, hvs, hws, hlen, Option.some.inj hlength', hbroken⟩

end Chain
end Matchbook
