/-
  A search finds what a scan of the whole store finds.

  * `Store.candidate?`: what a stored order is to a root, and `Store.candidates` all
    orders that are candidates, without queries and pages;
  * `sifted_perm`: the orders that a search lets pass are the candidates;
  * `inMemory_scans`: the answer of a search is that of a scan (`IsScan`,
    `AnswersScan`), whether it looks for the items itself or is given them.
-/
import Mathlib.Data.List.Nodup
import Matchbook.Proofs.Search.Filling
import Matchbook.Proofs.Search.Pairing
import Matchbook.Proofs.Search.Run

namespace Matchbook

/-! ## Candidates in a store -/

/-- Whether the chain can be computed and accepts the candidate. -/
def Chain.admits (chain : Chain) (item candidate : OrderItem) : Bool :=
  match chain.accepts item candidate with
  | .ok accepted => accepted
  | .error _ => false

theorem Chain.admits_iff {chain : Chain} {item candidate : OrderItem} :
    chain.admits item candidate = true ↔ chain.accepts item candidate = .ok true := by
  unfold admits
  cases chain.accepts item candidate with
  | error e => simp
  | ok accepted => simp

/-- Whether some item of an order is accepted for some item of the root. -/
def Chain.admitsAny (chain : Chain) (root candidate : LoadedOrder) : Bool :=
  candidate.items.any fun i => root.items.any fun r => chain.admits r i

namespace Store

/-- The stored order with its items, if it is another one than the root, its items
    are its items and complete, and some item is accepted for some item of the
    root. -/
def candidate? (s : Store) (chain : Chain) (root : LoadedOrder) (order : Order) :
    Option LoadedOrder :=
  if order.id = root.order.id then none
  else
    match order.bind (s.itemsOf order.id) with
    | .error _ => none
    | .ok candidate => if chain.admitsAny root candidate then some candidate else none

/-- The candidates among all stored orders. -/
def candidates (s : Store) (chain : Chain) (root : LoadedOrder) : List LoadedOrder :=
  s.orders.rows.filterMap (s.candidate? chain root)

end Store

namespace Search

/-- Where it can be computed, an order is compatible if one of its items is
    accepted for one of the root's. -/
theorem isCompatible_eq_ok {chain : Chain} {root candidate : LoadedOrder} {b : Bool}
    (h : isCompatible chain root candidate = .ok b) :
    chain.admitsAny root candidate = b := by
  cases b with
  | true =>
    obtain ⟨i, hi, h⟩ := exists_of_anyM h
    obtain ⟨r, hr, h⟩ := exists_of_anyM h
    exact List.any_eq_true.2 ⟨i, hi, List.any_eq_true.2 ⟨r, hr, Chain.admits_iff.2 h⟩⟩
  | false =>
    rw [Chain.admitsAny, List.any_eq_false]
    intro i hi hany
    obtain ⟨r, hr, hadmits⟩ := List.any_eq_true.1 hany
    have hfalse := forall_of_anyM (forall_of_anyM h i hi) r hr
    rw [Chain.admits_iff.1 hadmits] at hfalse
    cases hfalse

/-! ## Verdicts and candidates -/

section Verdicts

variable {s : Store} {chain : Chain} {root : LoadedOrder}

theorem eq_of_bind {order : Order} {items : List OrderItem} {c : LoadedOrder}
    (h : order.bind items = .ok c) : c = ⟨order, items⟩ := by
  unfold Order.bind at h
  split at h
  · cases h
  · split at h
    · cases h
    · split at h
      · cases h
      · split at h
        · cases h
        · exact (Except.ok.inj h).symm

theorem candidate?_eq_some {order : Order} {c : LoadedOrder} :
    s.candidate? chain root order = some c ↔ order.id ≠ root.order.id ∧
      order.bind (s.itemsOf order.id) = .ok c ∧
        chain.admitsAny root c = true := by
  unfold Store.candidate?
  by_cases hid : order.id = root.order.id
  · simp [hid]
  · rw [if_neg hid]
    cases hb : order.bind (s.itemsOf order.id) with
    | error defect => simp
    | ok candidate =>
      simp only [ne_eq, hid, not_false_eq_true, true_and, Except.ok.injEq]
      cases hany : chain.admitsAny root candidate with
      | true =>
        rw [if_pos rfl, Option.some.injEq]
        exact ⟨fun h => ⟨h, h ▸ hany⟩, fun h => h.1⟩
      | false =>
        rw [if_neg Bool.false_ne_true]
        refine ⟨nofun, ?_⟩
        rintro ⟨rfl, h⟩
        rw [hany] at h
        cases h

theorem order_eq_of_candidate? {order : Order} {c : LoadedOrder}
    (h : s.candidate? chain root order = some c) : c.order = order := by
  rw [eq_of_bind (candidate?_eq_some.1 h).2.1]

/-- A look at a stored order that is not the root says what it is to the root. -/
theorem verdict_eq {id : String} (hid : id ≠ root.order.id) {order : Order}
    (ho : s.order? id = some order) {v : Option LoadedOrder}
    (h : s.verdict chain root id = .ok v) : v = s.candidate? chain root order := by
  have heq : order.id = id := (Table.get?_eq_some_iff.1 ho).2
  unfold Store.verdict at h
  unfold Store.candidate?
  rw [ho] at h
  dsimp only at h
  rw [if_neg (heq ▸ hid)]
  cases hb : order.bind (s.itemsOf order.id) with
  | error defect =>
    rw [hb] at h
    exact (Except.ok.inj h).symm
  | ok candidate =>
    rw [hb] at h
    dsimp only at h ⊢
    cases hc : isCompatible chain root candidate with
    | error e =>
      rw [hc] at h
      cases h
    | ok compatible =>
      rw [hc] at h
      rw [isCompatible_eq_ok hc]
      cases compatible with
      | true => exact (Except.ok.inj h).symm
      | false => exact (Except.ok.inj h).symm

/-- It finds a candidate exactly if the order is stored and a candidate. -/
theorem verdict_iff {id : String} (hid : id ≠ root.order.id) {v : Option LoadedOrder}
    (h : s.verdict chain root id = .ok v) {c : LoadedOrder} :
    v = some c ↔
      ∃ order ∈ s.orders.rows, order.id = id ∧ s.candidate? chain root order = some c := by
  cases ho : s.order? id with
  | none =>
    rw [Store.verdict, ho] at h
    obtain rfl := Except.ok.inj h
    refine ⟨nofun, ?_⟩
    rintro ⟨order, hmem, heq, -⟩
    rw [Store.order?, Table.get?_eq_some_iff.2 ⟨hmem, heq⟩] at ho
    cases ho
  | some order =>
    rw [verdict_eq hid ho h]
    obtain ⟨hmem, heq⟩ := Table.get?_eq_some_iff.1 ho
    constructor
    · exact fun hc => ⟨order, hmem, heq, hc⟩
    · -- no other stored order has this id
      rintro ⟨order', hmem', heq', hc⟩
      rw [Store.order?, Table.get?_eq_some_iff.2 ⟨hmem', heq'⟩] at ho
      cases ho
      exact hc

/-! ## No candidate is lost -/

theorem nodup_eraseDups : ∀ ids : List String, ids.eraseDups.Nodup
  | [] => List.nodup_nil
  | id :: ids => by
    rw [List.eraseDups_cons, List.nodup_cons]
    refine ⟨fun h => ?_, nodup_eraseDups _⟩
    simpa using (List.mem_filter.1 (List.mem_eraseDups.1 h)).2
termination_by ids => ids.length
decreasing_by exact Nat.lt_succ_of_le (List.length_filter_le _ _)

theorem mem_candidateIds {rootId : String} {docs : List OrderItem} {id : String} :
    id ∈ candidateIds rootId docs ↔ id ≠ rootId ∧ ∃ i ∈ docs, i.orderId = id := by
  simp [candidateIds, List.mem_eraseDups, and_comm]

/-- The queries of the root's items find an item of every candidate. -/
theorem exists_document {order : Order} {c : LoadedOrder}
    (h : s.candidate? chain root order = some c) :
    ∃ i ∈ documents s chain root none, i.orderId = order.id := by
  obtain ⟨-, hbind, hany⟩ := candidate?_eq_some.1 h
  obtain ⟨i, hi, hany⟩ := List.any_eq_true.1 hany
  obtain ⟨r, hr, hadmits⟩ := List.any_eq_true.1 hany
  rw [eq_of_bind hbind] at hi
  obtain ⟨hi, horder⟩ := List.mem_filter.1 hi
  have haccepts := Chain.query_accepts_of_accepts (Chain.admits_iff.1 hadmits)
  exact ⟨i, List.mem_flatMap.2 ⟨r, hr, Query.mem_found.2 ⟨hi, haccepts, rfl⟩⟩,
    by simpa using horder⟩

theorem nodup_candidates (s : Store) (chain : Chain) (root : LoadedOrder) :
    ((s.candidates chain root).map (·.order.id)).Nodup := by
  refine List.pairwise_map.2 (List.pairwise_filterMap.2 (s.orders.sorted.imp ?_))
  intro order order' hlt c hc c' hc' heq
  rw [order_eq_of_candidate? hc, order_eq_of_candidate? hc'] at heq
  rw [heq] at hlt
  exact String.lt_irrefl _ hlt

/-- **Nothing is lost and nothing comes twice**: the orders that pass are the
    candidates in the store, if every candidate has an item to be found by. -/
theorem sifted_perm {docs : List OrderItem}
    (hdocs : ∀ order ∈ s.orders.rows, ∀ c, s.candidate? chain root order = some c →
      ∃ i ∈ docs, i.orderId = order.id) {found : List (Option LoadedOrder)}
    (h : (candidateIds root.order.id docs).mapM (s.verdict chain root) = .ok found) :
    (found.filterMap id).Perm (s.candidates chain root) := by
  obtain ⟨hall, rfl⟩ := (mapM_eq_ok_iff none).1 h
  have hverdict : ∀ id ∈ candidateIds root.order.id docs, ∀ c,
      (s.verdict chain root id).toOption.getD none = some c ↔
        ∃ order ∈ s.orders.rows, order.id = id ∧ s.candidate? chain root order = some c :=
    fun id hid c => verdict_iff (mem_candidateIds.1 hid).1 (hall id hid)
  rw [List.filterMap_map]
  refine (List.perm_ext_iff_of_nodup ?_ (List.Nodup.of_map _ (nodup_candidates s chain root))).2 ?_
  · refine List.pairwise_filterMap.2 ((nodup_eraseDups _).imp_of_mem ?_)
    intro id id' hid hid' hne c hc c' hc' hcc
    subst hcc
    obtain ⟨order, -, rfl, ho⟩ := (hverdict id hid c).1 hc
    obtain ⟨order', -, rfl, ho'⟩ := (hverdict id' hid' c).1 hc'
    rw [← order_eq_of_candidate? ho, ← order_eq_of_candidate? ho'] at hne
    exact hne rfl
  · intro c
    rw [Store.candidates, List.mem_filterMap, List.mem_filterMap]
    constructor
    · rintro ⟨id, hid, hc⟩
      obtain ⟨order, hmem, -, ho⟩ := (hverdict id hid c).1 hc
      exact ⟨order, hmem, ho⟩
    · rintro ⟨order, hmem, ho⟩
      have hid := mem_candidateIds.2 ⟨(candidate?_eq_some.1 ho).1, hdocs order hmem c ho⟩
      exact ⟨order.id, hid, (hverdict _ hid c).2 ⟨order, hmem, rfl, ho⟩⟩

end Verdicts

/-! ## The search and the scan -/

/-- What a scan of the whole store finds for a root order. -/
structure IsScan (s : Store) (search : Search) (root : LoadedOrder) (result : SearchResult) :
    Prop where
  /-- The candidates for several tokens of a root for one are left to another search. -/
  requiresScan : result.requiresScan.Perm
    (((s.candidates search.chain root).filter (needsScan root)).map (·.order))
  /-- The others are paired with the root and fill it, in whatever order they come. -/
  records : ∀ cs, cs.Perm ((s.candidates search.chain root).filter fun c => !needsScan root c) →
    ∃ pairs fills, enabled search.config.oneToOne (pair search.chain root cs) = .ok pairs ∧
      enabled search.config.oneToMany (fill search.chain root cs) = .ok fills ∧
        result.records = pairs ++ fills

/-- The answer is that of a scan: it fails if the root's items are not its items or
    incomplete, and besides only if a decimal overflows. -/
structure AnswersScan (s : Store) (search : Search) (answer : Except SearchError SearchResult) :
    Prop where
  invalid : ∀ d, answer = .error (.invalidOrder search.root.id d) ↔
    search.root.bind (s.itemsOf search.root.id) = .error d
  failed : ∀ e, answer = .error e →
    (∃ d, e = .invalidOrder search.root.id d) ∨ ∃ overflow, e = .arithmetic overflow
  scanned : ∀ result, answer = .ok result → ∃ root,
    search.root.bind (s.itemsOf search.root.id) = .ok root ∧ IsScan s search root result

/-- Nothing but an overflow makes the computation fail. -/
def OnlyOverflows {α : Type} (x : Except SearchError α) : Prop :=
  ∀ e, x = .error e → ∃ overflow, e = .arithmetic overflow

namespace OnlyOverflows

variable {α β : Type}

theorem ok (a : α) : OnlyOverflows (.ok a) := FailsOnly.ok a

theorem bind {x : Except SearchError α} {f : α → Except SearchError β} (hx : OnlyOverflows x)
    (hf : ∀ a, OnlyOverflows (f a)) : OnlyOverflows (x >>= f) :=
  FailsOnly.bind hx fun a _ => hf a

theorem mapM {f : α → Except SearchError β} (hf : ∀ a, OnlyOverflows (f a)) (l : List α) :
    OnlyOverflows (l.mapM f) := FailsOnly.mapM fun a _ => hf a

theorem verdict (s : Store) (chain : Chain) (root : LoadedOrder) (id : String) :
    OnlyOverflows (s.verdict chain root id) := by
  unfold Store.verdict
  split
  · exact ok _
  · split
    · exact ok _
    · split
      · rintro _ ⟨⟩
        exact ⟨_, rfl⟩
      · exact ok _
      · exact ok _

theorem enabled (wanted : Bool) (outcome : Except ArithmeticError Outcome) :
    OnlyOverflows (enabled wanted outcome) := by
  cases wanted with
  | false => exact ok _
  | true =>
    cases outcome with
    | error e =>
      rintro _ ⟨⟩
      exact ⟨e, rfl⟩
    | ok outcome => exact ok _

end OnlyOverflows

theorem enabled_of_imp {wanted : Bool} {x y : Except ArithmeticError Outcome}
    (h : ∀ {outcome}, x = .ok outcome → y = .ok outcome) {records : List MatchRecord}
    (hx : enabled wanted x = .ok records) : enabled wanted y = .ok records := by
  cases wanted with
  | false => exact hx
  | true =>
    cases x with
    | error e => cases hx
    | ok outcome =>
      rw [h rfl]
      exact hx

/-- The records with the candidates that passed are those of the scan. -/
theorem isScan_of_perm {s : Store} {search : Search} {root : LoadedOrder}
    {found : List (Option LoadedOrder)}
    (hfound : (found.filterMap id).Perm (s.candidates search.chain root))
    {pairs fills : List MatchRecord}
    (hpairs : enabled search.config.oneToOne
      (pair search.chain root (Sifted.of root found).candidates) = .ok pairs)
    (hfills : enabled search.config.oneToMany
      (fill search.chain root (Sifted.of root found).candidates) = .ok fills) :
    IsScan s search root ⟨pairs ++ fills, (Sifted.of root found).requiresScan⟩ where
  requiresScan := (hfound.filter _).map _
  records cs hcs := by
    have hperm : (Sifted.of root found).candidates.Perm cs :=
      (hfound.filter fun c => !needsScan root c).trans hcs.symm
    have hd : ((Sifted.of root found).candidates.map (·.order.id)).Nodup :=
      ((hfound.filter fun c => !needsScan root c).map (·.order.id)).nodup_iff.2
        ((nodup_candidates s search.chain root).sublist (List.filter_sublist.map _))
    exact ⟨pairs, fills, enabled_of_imp (pair_perm hperm hd) hpairs,
      enabled_of_imp (fill_perm hperm hd) hfills, rfl⟩

/-- The answer of a search is that of a scan, if the items that are given name every
    stored order. -/
theorem answer_scans {s : Store} {search : Search} {possible : Option (List OrderItem)}
    (hpossible : ∀ docs, possible = some docs →
      ∀ order ∈ s.orders.rows, ∃ i ∈ docs, i.orderId = order.id) :
    AnswersScan s search (search.answer s possible) := by
  cases hb : search.root.bind (s.itemsOf search.root.id) with
  | error defect =>
    have hanswer : search.answer s possible = .error (.invalidOrder search.root.id defect) := by
      rw [answer, hb]
      rfl
    rw [hanswer]
    exact ⟨fun d => by simp [hb], fun e h => Or.inl ⟨defect, (Except.error.inj h).symm⟩, nofun⟩
  | ok root =>
    have honly : OnlyOverflows (search.answer s possible) := by
      rw [answer, hb]
      refine (OnlyOverflows.ok root).bind fun _ => OnlyOverflows.bind ?_ fun _ =>
        (OnlyOverflows.enabled _ _).bind fun _ => (OnlyOverflows.enabled _ _).bind fun _ => .ok _
      exact (OnlyOverflows.mapM (.verdict s _ _) _).bind fun _ => .ok _
    refine ⟨fun d => ⟨fun h => ?_, fun h => ?_⟩, fun e h => Or.inr (honly e h), fun result h => ?_⟩
    · obtain ⟨_, he⟩ := honly _ h
      cases he
    · rw [hb] at h
      cases h
    · rw [answer, hb] at h
      obtain ⟨_, ⟨⟩, h⟩ := bind_eq_ok.1 h
      obtain ⟨_, hsifted, h⟩ := bind_eq_ok.1 h
      obtain ⟨found, hfound, ⟨⟩⟩ := bind_eq_ok.1 hsifted
      obtain ⟨pairs, hpairs, h⟩ := bind_eq_ok.1 h
      obtain ⟨fills, hfills, h⟩ := bind_eq_ok.1 h
      cases h
      refine ⟨root, hb,
        isScan_of_perm (sifted_perm (fun order hmem c hc => ?_) hfound) hpairs hfills⟩
      cases possible with
      | none => exact exists_document hc
      | some docs => exact hpossible docs rfl order hmem

/-- The answer of a search of a store in memory that enters its reads and events into
    this journal. -/
def inMemory (search : Search) (s : Store) (possible : Option (List OrderItem))
    (journal : Journal) : Except SearchError SearchResult :=
  ((run (s.recording .none) search possible).run.run journal).1

theorem inMemory_eq_capped (search : Search) (s : Store) (possible : Option (List OrderItem))
    (journal : Journal) : search.inMemory s possible journal = search.cappedAnswer s possible :=
  returns_iff.1 (run_yields s.recording_reads search possible) journal

theorem inMemory_eq {search : Search} (hcap : search.config.maxCandidateOrders = none) (s : Store)
    (possible : Option (List OrderItem)) (journal : Journal) :
    search.inMemory s possible journal = search.answer s possible := by
  rw [inMemory_eq_capped, cappedAnswer_eq hcap]

/-- **Lossless enumeration**: a search finds what a scan of the whole store finds,
    and finds the same if it is given the items of all stored orders. -/
theorem inMemory_scans (s : Store) (search : Search)
    (hcap : search.config.maxCandidateOrders = none) {docs : List OrderItem}
    (hdocs : ∀ order ∈ s.orders.rows, ∃ i ∈ docs, i.orderId = order.id)
    (journal journal' : Journal) :
    AnswersScan s search (search.inMemory s none journal) ∧
      AnswersScan s search (search.inMemory s (some docs) journal') ∧
        ∀ result result', search.inMemory s none journal = .ok result →
          search.inMemory s (some docs) journal' = .ok result' →
            result'.records = result.records ∧ result'.requiresScan.Perm result.requiresScan := by
  have hnone : AnswersScan s search (search.inMemory s none journal) := by
    rw [inMemory_eq hcap]
    exact answer_scans nofun
  have hsome : AnswersScan s search (search.inMemory s (some docs) journal') := by
    rw [inMemory_eq hcap]
    refine answer_scans fun docs' h => ?_
    cases h
    exact hdocs
  refine ⟨hnone, hsome, fun result result' h h' => ?_⟩
  obtain ⟨root, hroot, hscan⟩ := hnone.scanned result h
  obtain ⟨root', hroot', hscan'⟩ := hsome.scanned result' h'
  rw [hroot] at hroot'
  cases hroot'
  obtain ⟨pairs, fills, hpairs, hfills, hrecords⟩ := hscan.records _ (.refl _)
  obtain ⟨pairs', fills', hpairs', hfills', hrecords'⟩ := hscan'.records _ (.refl _)
  rw [hpairs] at hpairs'
  rw [hfills] at hfills'
  cases hpairs'
  cases hfills'
  exact ⟨hrecords'.trans hrecords.symm, hscan'.requiresScan.trans hscan.requiresScan.symm⟩

/-- An order for one token that stays at one price all the time. -/
def standingOrder (id maker : String) (side : Side) : Order where
  id
  chainId := "1"
  isSell := side.isSell
  numItems := 1
  startPrice := .ofUInt64 5
  endPrice := .ofUInt64 5
  startTime := 0
  endTime := 10
  maker
  taker := none
  complication := "exchange"
  currency := "WETH"
  status := .validActive

/-- The only line of such an order. -/
def onlyLine (order : Order) : OrderItem := .ofOrder order order.id "collection" (some "7") 1

/-- A store with a listing and an offer for the same token. -/
def market : Store :=
  let ask := standingOrder "ask" "alice" .sell
  let bid := standingOrder "bid" "bob" .buy
  (Store.empty.insert ask [onlyLine ask]).insert bid [onlyLine bid]

/-- The search for the listing finds the offer. -/
theorem market_scanned :
    let search := ofOrder (standingOrder "ask" "alice" .sell)
    ∃ result root, search.inMemory market none .empty = .ok result ∧ result.records.length = 1 ∧
      search.root.bind (market.itemsOf search.root.id) = .ok root ∧
        IsScan market search root result := by
  intro search
  have hdocs : ∀ order ∈ market.orders.rows, ∃ i ∈ market.items.rows, i.orderId = order.id := by
    decide
  have hscans := (inMemory_scans market search rfl hdocs .empty .empty).1
  have hlength : (search.inMemory market none .empty).toOption.map (·.records.length) = some 1 := by
    decide +kernel
  cases h : search.inMemory market none .empty with
  | error e =>
    rw [h] at hlength
    cases hlength
  | ok result =>
    rw [h] at hlength
    obtain ⟨root, hroot, hscan⟩ := hscans.scanned result h
    exact ⟨result, root, rfl, Option.some.inj hlength, hroot, hscan⟩

end Search
end Matchbook
