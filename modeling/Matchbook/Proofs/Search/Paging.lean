/-
  Pages lose nothing: read one after the other, they are all that a query finds,
  however many items fit on one.

  * `pagesFrom_returns`: the pages from the place of a query on;
  * `possibleMatches_returns`: the candidates of an item are all that its query
    finds in the store.
-/
import Matchbook.Proofs.Query.Order
import Matchbook.Proofs.Search.Reading

namespace Matchbook

/-- The items of a store have different ids. -/
theorem Store.distinct_items (s : Store) : Query.Distinct s.items.rows := by
  refine s.items.sorted.imp ?_
  intro a b h he
  rw [he] at h
  exact String.lt_irrefl _ h

/-- A query that compares one field at most is answered by its page. -/
theorem Store.find_eq {s : Store} {q : Query} (h : q.comparedFields.length ≤ 1) :
    s.find q = .ok (q.page s.items.rows) := if_neg (Nat.not_lt.2 h)

variable {m : Type → Type} [Monad m] [LawfulMonad m] {env : Environment m} {s : Store}

/-- Reading page by page from the place of a query on gives all that it finds. -/
theorem pagesFrom_returns (henv : env.Reads s) {n : Nat} (hn : 0 < n) : ∀ (fuel : Nat) {q : Query},
    q.limit = some n → q.comparedFields.length ≤ 1 → (q.found s.items.rows).length < fuel →
      Returns (pagesFrom env n fuel q) (q.found s.items.rows, none)
  | 0, _, _, _, hf => by cases hf
  | fuel + 1, q, hl, hc, hf => by
    have hpage : s.find q = .ok ((q.found s.items.rows).take n) := by
      rw [Store.find_eq hc, Query.page_eq hl]
    unfold pagesFrom
    refine .bind (henv.query q) ?_
    rw [hpage]
    cases hlast : ((q.found s.items.rows).take n).getLast? with
    | none =>
      have hnil : q.found s.items.rows = [] := by
        have := List.take_eq_nil_iff.1 (List.getLast?_eq_none_iff.1 hlast)
        exact this.resolve_left (Nat.ne_of_gt hn)
      simp only [hnil, List.take_nil]
      exact .pure _
    | some last =>
      simp only [hlast]
      split
      · -- a page that is not full is the last one
        next hshort =>
        rw [List.length_take] at hshort
        rw [List.take_of_length_le (by omega)]
        exact .pure _
      · next hfull =>
        rw [List.length_take] at hfull
        have hrest := q.found_behind_page s.distinct_items hlast
        have ih := pagesFrom_returns henv hn fuel (q := q.behind last) hl hc (by
          rw [hrest, List.length_drop]
          omega)
        refine .bind ih ?_
        rw [hrest, List.take_append_drop]
        exact .pure _

/-- The candidates of an item are the stored items that its query finds. -/
theorem possibleMatches_returns (henv : env.Reads s) {chain : Chain} {item : OrderItem}
    (hc : (chain.query item).comparedFields.length ≤ 1) (pageSize : Nat) :
    Returns (possibleMatches env chain item pageSize)
      ((chain.query item).found s.items.rows, none) := by
  have hlen : ((chain.query item).found s.items.rows).length < env.extent + 1 := by
    rw [henv.extent, Query.found, (Query.sort_perm _ _).length_eq]
    exact Nat.lt_succ_of_le (List.length_filter_le _ _)
  exact pagesFrom_returns henv (n := max pageSize 1) (by omega) _ rfl hc hlen

end Matchbook
