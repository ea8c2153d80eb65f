/-
  What a search says, whatever effects it has.

  * `Store.verdict` is what a look at one order says, and `Sifted.of` what is made of
    some verdicts;
  * `inspect_yields`, `sift_yields` and their like: the parts of a search compute just
    this from what is stored;
  * `run_yields`: the answer of a search (`Search.cappedAnswer`, and `Search.answer` where
    there is no cap).
-/
import Matchbook.Proofs.Except
import Matchbook.Proofs.Rule.Query
import Matchbook.Proofs.Search.Paging

namespace Matchbook

/-- What a look at an order says: it is passed over, it is a candidate, or it cannot
    be told. -/
def Store.verdict (s : Store) (chain : Chain) (root : LoadedOrder) (id : String) :
    Except SearchError (Option LoadedOrder) :=
  match s.order? id with
  | none => .ok none
  | some order =>
    match order.bind (s.itemsOf order.id) with
    | .error _ => .ok none
    | .ok candidate =>
      match Search.isCompatible chain root candidate with
      | .error e => .error (.arithmetic e)
      | .ok true => .ok (some candidate)
      | .ok false => .ok none

namespace Search

/-! ## What is made of the verdicts -/

/-- The candidate is for several tokens, and the root for one. -/
def needsScan (root candidate : LoadedOrder) : Bool :=
  root.order.numItems == 1 && decide (1 < candidate.order.numItems)

/-- The candidate orders behind some verdicts. -/
def Sifted.of (root : LoadedOrder) (found : List (Option LoadedOrder)) : Sifted where
  candidates := (found.filterMap id).filter fun c => !needsScan root c
  requiresScan := ((found.filterMap id).filter (needsScan root)).map (·.order)
  rejected := found.countP (·.isNone)

theorem Sifted.of_none (root : LoadedOrder) (found : List (Option LoadedOrder)) :
    Sifted.of root (none :: found) =
      { Sifted.of root found with rejected := (Sifted.of root found).rejected + 1 } := by
  simp [Sifted.of]

theorem Sifted.of_some (root candidate : LoadedOrder) (found : List (Option LoadedOrder)) :
    Sifted.of root (some candidate :: found) =
      if needsScan root candidate then
        { Sifted.of root found with
          requiresScan := candidate.order :: (Sifted.of root found).requiresScan }
      else { Sifted.of root found with
          candidates := candidate :: (Sifted.of root found).candidates } := by
  cases h : needsScan root candidate <;> simp [Sifted.of, h]

/-- What becomes of some orders. -/
def siftedOf (s : Store) (chain : Chain) (root : LoadedOrder) (ids : List String) :
    Except SearchError Sifted := do
  return Sifted.of root (← ids.mapM (s.verdict chain root))

theorem siftedOf_cons (s : Store) (chain : Chain) (root : LoadedOrder) (id : String)
    (ids : List String) : siftedOf s chain root (id :: ids) = do
      let found ← s.verdict chain root id
      let rest ← siftedOf s chain root ids
      match found with
      | none => return { rest with rejected := rest.rejected + 1 }
      | some candidate =>
        if needsScan root candidate then
          return { rest with requiresScan := candidate.order :: rest.requiresScan }
        else return { rest with candidates := candidate :: rest.candidates } := by
  unfold siftedOf
  rw [List.mapM_cons]
  cases s.verdict chain root id with
  | error e => rfl
  | ok found =>
    cases ids.mapM (s.verdict chain root) with
    | error e => rfl
    | ok rest =>
      show Except.ok (Sifted.of root (found :: rest)) = _
      cases found with
      | none =>
        rw [Sifted.of_none]
        rfl
      | some candidate =>
        rw [Sifted.of_some]
        show _ = if needsScan root candidate then _ else _
        split <;> rfl

/-- The records of a search on the candidates, if it is wanted. -/
def enabled (wanted : Bool) (outcome : Except ArithmeticError Outcome) :
    Except SearchError (List MatchRecord) :=
  if wanted then (outcome.map (·.records)).mapError .arithmetic else .ok []

/-- The items whose orders are looked at: those that are given, or those that the
    queries of the root's items find. -/
def documents (s : Store) (chain : Chain) (root : LoadedOrder) :
    Option (List OrderItem) → List OrderItem
  | some docs => docs
  | none => root.items.flatMap fun i => (chain.query i).found s.items.rows

/-- The answer of a search that is not capped. -/
def answer (search : Search) (s : Store) (possible : Option (List OrderItem)) :
    Except SearchError SearchResult := do
  let root ← (search.root.bind (s.itemsOf search.root.id)).mapError (.invalidOrder search.root.id)
  let docs := documents s search.chain root possible
  let sifted ← siftedOf s search.chain root (candidateIds root.order.id docs)
  let pairs ← enabled search.config.oneToOne (pair search.chain root sifted.candidates)
  let fills ← enabled search.config.oneToMany (fill search.chain root sifted.candidates)
  return ⟨pairs ++ fills, sifted.requiresScan⟩

/-- As many of the orders as are wanted. -/
def capped (cap : Option Nat) (ids : List String) : List String :=
  match cap with
  | some n => ids.take n
  | none => ids

/-- The answer of a search, capped or not. -/
def cappedAnswer (search : Search) (s : Store) (possible : Option (List OrderItem)) :
    Except SearchError SearchResult := do
  let root ← (search.root.bind (s.itemsOf search.root.id)).mapError (.invalidOrder search.root.id)
  let docs := documents s search.chain root possible
  let sifted ← siftedOf s search.chain root
    (capped search.config.maxCandidateOrders (candidateIds root.order.id docs))
  let pairs ← enabled search.config.oneToOne (pair search.chain root sifted.candidates)
  let fills ← enabled search.config.oneToMany (fill search.chain root sifted.candidates)
  return ⟨pairs ++ fills, sifted.requiresScan⟩

theorem cappedAnswer_eq {search : Search} (hcap : search.config.maxCandidateOrders = none)
    (s : Store) (possible : Option (List OrderItem)) :
    search.cappedAnswer s possible = search.answer s possible := by
  unfold cappedAnswer answer
  rw [hcap]
  rfl

/-! ## What the parts of a search say -/

variable {m : Type → Type} [Monad m] [LawfulMonad m] {env : Environment m} {s : Store}
  {chain : Chain}

theorem fetch_yields {α : Type} {read : m (Except StoreError α)} {a : α}
    (h : Returns read (.ok a)) : Yields (fetch read) (.ok a) := .bind (.lift h) (.pure a)

theorem log_yields (e : Event) : Yields (env.log e : ExceptT SearchError m Unit) (.ok ()) :=
  .lift (.unit _)

theorem loadOrder_yields (henv : env.Reads s) (order : Order) : Yields (loadOrder env order)
    ((order.bind (s.itemsOf order.id)).mapError (.invalidOrder order.id)) := by
  refine .bind (fetch_yields (henv.items order.id)) ?_
  cases order.bind (s.itemsOf order.id) with
  | error defect => exact .throw _
  | ok loaded => exact .bind (log_yields _) (.pure _)

/-- The candidates of all items are what their queries find in the store. -/
theorem enumerate_yields (henv : env.Reads s) (pageSize : Nat) (items : List OrderItem) :
    Yields (enumerate env chain pageSize items)
      (.ok (items.flatMap fun i => (chain.query i).found s.items.rows)) := by
  induction items with
  | nil => exact .pure _
  | cons item items ih =>
    refine .bind
      (.lift (possibleMatches_returns henv (chain.length_comparedFields item) pageSize)) ?_
    exact .bind (log_yields _) (.bind ih (.pure _))

theorem inspect_yields (henv : env.Reads s) (chain : Chain) (root : LoadedOrder) (id : String) :
    Yields (inspect env chain root id) (s.verdict chain root id) := by
  refine .bind (fetch_yields (henv.order id)) ?_
  unfold Store.verdict
  cases s.order? id with
  | none => exact .bind (log_yields _) (.pure _)
  | some order =>
    refine .bind (.lift (loadOrder_yields henv order)) ?_
    dsimp only
    cases order.bind (s.itemsOf order.id) with
    | error defect => exact .bind (log_yields _) (.pure _)
    | ok candidate =>
      dsimp only [Except.mapError]
      cases isCompatible chain root candidate with
      | error e => exact .throw _
      | ok compatible =>
        cases compatible with
        | true => exact .pure _
        | false => exact .bind (log_yields _) (.pure _)

theorem sift_yields (henv : env.Reads s) (chain : Chain) (root : LoadedOrder) (ids : List String) :
    Yields (sift env chain root ids) (siftedOf s chain root ids) := by
  induction ids with
  | nil => exact .pure _
  | cons id ids ih =>
    rw [siftedOf_cons]
    refine (inspect_yields henv chain root id).seq fun found => ih.seq fun rest => ?_
    cases found with
    | none => exact .pure _
    | some candidate =>
      show Yields (if needsScan root candidate then _ else _)
        (if needsScan root candidate then _ else _)
      split
      · exact .pure _
      · exact .pure _

theorem forIn_log_yields (es : List Event) :
    Yields (forIn es PUnit.unit fun e _ => do
      (env.log e : ExceptT SearchError m Unit)
      pure (ForInStep.yield PUnit.unit)) (.ok PUnit.unit) := by
  induction es with
  | nil => exact .pure (m := m) _
  | cons e es ih =>
    rw [List.forIn_cons]
    exact .bind (.bind (log_yields e) (.pure _)) ih

theorem runMode_yields (env : Environment m) (wanted : Bool)
    (outcome : Except ArithmeticError Outcome) :
    Yields (runMode env wanted outcome) (enabled wanted outcome) := by
  cases wanted with
  | false => exact .pure _
  | true =>
    cases outcome with
    | error e => exact .throw _
    | ok outcome => exact .bind (forIn_log_yields _) (.pure _)

theorem capIds_returns (env : Environment m) (cap : Option Nat) (ids : List String) :
    Returns (capIds env cap ids) (capped cap ids) := by
  cases cap with
  | none => exact .pure _
  | some n =>
    unfold capIds capped
    dsimp only
    split
    · exact .bind (.unit _) (.pure _)
    · next hall =>
      rw [List.take_of_length_le (Nat.le_of_not_lt hall)]
      exact .pure _

/-- **The answer of a search** is the same in every environment that reads the store. -/
theorem run_yields (henv : env.Reads s) (search : Search) (possible : Option (List OrderItem)) :
    Yields (run env search possible) (search.cappedAnswer s possible) := by
  unfold run cappedAnswer
  refine (loadOrder_yields henv search.root).seq fun root => ?_
  have hdocs : ∀ {f : List OrderItem → ExceptT SearchError m SearchResult} {r},
      Yields (f (documents s search.chain root possible)) r → Yields (match possible with
        | some docs => pure docs >>= f
        | none => enumerate env search.chain search.config.pageSize root.items >>= f) r := by
    intro f r hf
    cases possible with
    | some docs => exact .bind (.pure _) hf
    | none => exact .bind (enumerate_yields henv _ _) hf
  refine hdocs (.bind (.lift (capIds_returns env _ _)) ?_)
  refine (sift_yields henv search.chain root _).seq fun sifted => ?_
  refine (runMode_yields env search.config.oneToOne _).seq fun pairs => ?_
  refine (runMode_yields env search.config.oneToMany _).seq fun fills => ?_
  exact .bind (log_yields _) (.pure _)

end Search
end Matchbook
