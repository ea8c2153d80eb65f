/-
  Going through pages while others write to the store.

  * `Browse` reads the pages of a query, each behind the last item of the one before,
    until one is not full; some changes (`Write`) come between any two reads;
  * `Browse.pairwise` and `Browse.mem_of_stays`: what is read is in strict order, and what
    stays stored is read; `Browse.exists_browse`: the reading ends;
  * `browse_loses_nothing` puts these together;
  * `possibleMatches_complete`: where no one writes, the candidates of an item are read in
    full, whatever the size of a page.
-/
import Mathlib.Data.List.Nodup
import Matchbook.Proofs.Rule.Query
import Matchbook.Proofs.Search.Scan
import Matchbook.Proofs.Store.History

namespace Matchbook

/-! ## Writing meanwhile -/

/-- A page, and the store that it was read from. -/
structure Visit where
  store : Store
  page : List OrderItem

/-- The items on all pages. -/
def itemsRead (visits : List Visit) : List OrderItem := visits.flatMap Visit.page

/-- Pages of `n` items are read, each strictly behind the last item of the one before,
    until one is not full.  `batches` are the changes between the reads, the first ones
    behind the first page; behind the last batch nothing is written any more. -/
inductive Browse (n : Nat) : Query → Store → List (List Write) → List Visit → Prop
  | close {q : Query} {s : Store} {batches : List (List Write)} {page : List OrderItem} :
    s.find q = .ok page → page.length < n → Browse n q s batches [⟨s, page⟩]
  | turn {q : Query} {s : Store} {batches : List (List Write)} {page : List OrderItem}
    {last : OrderItem} {visits : List Visit} :
    s.find q = .ok page → n ≤ page.length → page.getLast? = some last →
      Browse n (q.behind last) (s.writes (batches.headD [])) batches.tail visits →
        Browse n q s batches (⟨s, page⟩ :: visits)

/-- A store that is written to whenever a page was read. -/
def Store.contended (extent : Nat) : Environment (StateM (Store × List (List Write))) where
  order id := return .ok ((← get).1.order? id)
  items id := return .ok ((← get).1.itemsOf id)
  query q := do
    let (s, batches) ← get
    set (s.writes (batches.headD []), batches.tail)
    return s.find q
  log _ := pure ()
  extent := extent

/-! ## What is read -/

theorem Store.find_eq_ok {s : Store} {q : Query} {page : List OrderItem}
    (h : s.find q = .ok page) : page = q.page s.items.rows := by
  unfold find at h
  split at h
  · cases h
  · exact (Except.ok.inj h).symm

/-- What comes behind an item that comes behind the query's place does so, too. -/
theorem Query.isAfter_of_behind {q : Query} {x i : OrderItem} (hx : q.isAfter x = true)
    (hi : (q.behind x).isAfter i = true) : q.isAfter i = true := by
  have hi : q.sortKey.compare i x = .gt := beq_iff_eq.1 hi
  cases hs : q.startAfter with
  | none => simp [isAfter, hs]
  | some cursor =>
    simp only [isAfter, hs, beq_iff_eq] at hx ⊢
    exact Std.TransCmp.gt_trans hi hx

/-- What is found on a page or behind it comes before what is behind the last item. -/
theorem Query.compare_eq_lt_of_behind {q : Query} {x i j : OrderItem}
    (hx : i = x ∨ q.sortKey.compare i x = .lt) (hj : (q.behind x).isAfter j = true) :
    q.sortKey.compare i j = .lt := by
  have hj : q.sortKey.compare j x = .gt := beq_iff_eq.1 hj
  have hxj : q.sortKey.compare x j = .lt := Std.OrientedCmp.lt_of_gt hj
  rcases hx with rfl | hx
  · exact hxj
  · exact Std.TransCmp.lt_trans hx hxj

namespace Browse

variable {n : Nat} {q : Query} {s : Store} {batches : List (List Write)} {visits : List Visit}

theorem page_eq (hl : q.limit = some n) {page : List OrderItem} (hpage : s.find q = .ok page) :
    page = (q.found s.items.rows).take n := by
  rw [Store.find_eq_ok hpage, Query.page_eq hl]

theorem mem_page (hl : q.limit = some n) {page : List OrderItem} (hpage : s.find q = .ok page)
    {i : OrderItem} (hi : i ∈ page) :
    i ∈ s.items.rows ∧ q.accepts i = true ∧ q.isAfter i = true := by
  rw [page_eq hl hpage] at hi
  exact Query.mem_found.1 (List.mem_of_mem_take hi)

theorem page_pairwise (hl : q.limit = some n) {page : List OrderItem}
    (hpage : s.find q = .ok page) : page.Pairwise fun a b => q.sortKey.compare a b = .lt := by
  rw [page_eq hl hpage]
  exact (q.sort_pairwise (s.distinct_items.filter _)).sublist (List.take_sublist _ _)

theorem eq_or_lt_last {page : List OrderItem} {last : OrderItem}
    (hsorted : page.Pairwise fun a b => q.sortKey.compare a b = .lt)
    (hlast : page.getLast? = some last) {i : OrderItem} (hi : i ∈ page) :
    i = last ∨ q.sortKey.compare i last = .lt := by
  obtain ⟨xs, rfl⟩ := List.getLast?_eq_some_iff.1 hlast
  rcases List.mem_append.1 hi with hi | hi
  · exact Or.inr ((List.pairwise_append.1 hsorted).2.2 i hi last (by simp))
  · exact Or.inl (List.mem_singleton.1 hi)

/-- What is read is stored where it is read from. -/
theorem stored (h : Browse n q s batches visits) (hl : q.limit = some n) :
    ∀ v ∈ visits, ∀ i ∈ v.page, i ∈ v.store.items.rows := by
  induction h with
  | close hpage _ =>
    intro v hv i hi
    rw [List.mem_singleton.1 hv] at hi ⊢
    exact (mem_page hl hpage hi).1
  | turn hpage _ _ _ ih =>
    intro v hv i hi
    rcases List.mem_cons.1 hv with rfl | hv
    · exact (mem_page hl hpage hi).1
    · exact ih hl v hv i hi

/-- What is read is found by the query. -/
theorem found (h : Browse n q s batches visits) (hl : q.limit = some n) :
    ∀ i ∈ itemsRead visits, q.accepts i = true ∧ q.isAfter i = true := by
  induction h with
  | close hpage _ =>
    intro i hi
    exact (mem_page hl hpage (by simpa [itemsRead] using hi)).2
  | turn hpage _ hlast _ ih =>
    intro i hi
    rcases List.mem_append.1 hi with hi | hi
    · exact (mem_page hl hpage hi).2
    · obtain ⟨haccepts, hafter⟩ := ih hl i hi
      have hbehind := (mem_page hl hpage (List.mem_of_getLast? hlast)).2.2
      exact ⟨haccepts, Query.isAfter_of_behind hbehind hafter⟩

/-- The items are read in strict order. -/
theorem pairwise (h : Browse n q s batches visits) (hl : q.limit = some n) :
    (itemsRead visits).Pairwise fun a b => q.sortKey.compare a b = .lt := by
  induction h with
  | close hpage _ => simpa [itemsRead] using page_pairwise hl hpage
  | turn hpage _ hlast hrest ih =>
    have hp := page_pairwise hl hpage
    refine List.pairwise_append.2 ⟨hp, ih hl, fun i hi j hj => ?_⟩
    exact Query.compare_eq_lt_of_behind (eq_or_lt_last hp hlast hi) (hrest.found hl j hj).2

/-- What stays stored while the pages are read is read. -/
theorem mem_of_stays (h : Browse n q s batches visits) (hl : q.limit = some n) {i : OrderItem}
    (haccepts : q.accepts i = true) (hafter : q.isAfter i = true)
    (hstays : ∀ v ∈ visits, i ∈ v.store.items.rows) : i ∈ itemsRead visits := by
  induction h with
  | close hpage hshort =>
    obtain rfl := page_eq hl hpage
    rw [List.length_take] at hshort
    rw [List.take_of_length_le (by omega)]
    have hmem := Query.mem_found.2 ⟨hstays _ List.mem_cons_self, haccepts, hafter⟩
    simpa [itemsRead] using hmem
  | @turn q s _ page last _ hpage _ hlast _ ih =>
    obtain ⟨hhere, hlater⟩ := List.forall_mem_cons.1 hstays
    by_cases hi : i ∈ page
    · exact List.mem_append_left _ hi
    -- what is found and not on the page comes behind it
    obtain rfl := page_eq hl hpage
    have hmem : i ∈ q.found s.items.rows := Query.mem_found.2 ⟨hhere, haccepts, hafter⟩
    rw [← List.take_append_drop n (q.found s.items.rows)] at hmem
    have hdrop := (List.mem_append.1 hmem).resolve_left hi
    rw [← q.found_behind_page s.distinct_items hlast] at hdrop
    have hbehind := (Query.mem_found.1 hdrop).2.2
    exact List.mem_append_right _ (ih hl haccepts hbehind hlater)

/-- Every page but the last one is full. -/
theorem length_eq (h : Browse n q s batches visits) (hn : 0 < n) (hl : q.limit = some n) :
    visits.length = (itemsRead visits).length / n + 1 := by
  induction h with
  | close _ hshort => simp [itemsRead, Nat.div_eq_of_lt hshort]
  | turn hpage hfull _ _ ih =>
    obtain rfl := page_eq hl hpage
    rw [List.length_take] at hfull
    have hrest := ih hl
    simp only [itemsRead, List.flatMap_cons, List.length_cons, List.length_append,
      List.length_take] at hrest ⊢
    rw [hrest, Nat.min_eq_left (by omega), Nat.add_div_left _ hn]

/-- Going through the pages of a store that others write to reads just these. -/
theorem pagesFrom_eq (h : Browse n q s batches visits) {extent : Nat} :
    ∀ fuel, visits.length ≤ fuel →
      ((pagesFrom (Store.contended extent) n fuel q).run (s, batches)).1 =
        (itemsRead visits, none) := by
  have hquery : ∀ q s batches (rest : _ → StateM _ (List OrderItem × Option StoreError)),
      ((Store.contended extent).query q >>= rest).run (s, batches) =
        (rest (s.find q)).run (s.writes (batches.headD []), batches.tail) := fun _ _ _ _ => rfl
  induction h with
  | @close q s batches page hpage hshort =>
    intro fuel hfuel
    obtain ⟨fuel, rfl⟩ := Nat.exists_eq_add_of_le' (show 1 ≤ fuel from hfuel)
    rw [pagesFrom, hquery, hpage, itemsRead, List.flatMap_singleton]
    cases hlast : page.getLast? with
    | none => simp only [hlast]; rfl
    | some last => simp only [hlast, if_pos hshort]; rfl
  | @turn q s batches page last visits hpage hfull hlast _ ih =>
    intro fuel hfuel
    rw [List.length_cons] at hfuel
    obtain ⟨fuel, rfl⟩ := Nat.exists_eq_add_of_le' (show 1 ≤ fuel by omega)
    have hrest := ih fuel (by omega)
    rw [pagesFrom, hquery, hpage]
    simp only [hlast, if_neg (Nat.not_lt.2 hfull)]
    exact congrArg (fun r => (page ++ r.1, r.2)) hrest

/-- The stores that pages are read from are those behind the first batches. -/
theorem store_eq (h : Browse n q s batches visits) :
    ∀ v ∈ visits, ∃ k ≤ batches.length, v.store = s.writes (batches.take k).flatten := by
  induction h with
  | close _ _ =>
    intro v hv
    rw [List.mem_singleton.1 hv]
    exact ⟨0, Nat.zero_le _, rfl⟩
  | @turn q s batches _ _ _ _ _ _ _ ih =>
    intro v hv
    rcases List.mem_cons.1 hv with rfl | hv
    · exact ⟨0, Nat.zero_le _, rfl⟩
    obtain ⟨k, hk, hstore⟩ := ih v hv
    cases batches with
    | nil =>
      rw [List.tail_nil, List.take_nil] at hstore
      exact ⟨0, Nat.zero_le _, hstore⟩
    | cons changes rest =>
      refine ⟨k + 1, Nat.succ_le_succ hk, ?_⟩
      rw [List.take_succ_cons, List.flatten_cons, Store.writes, List.foldl_append]
      exact hstore

/-- Where nothing is written the pages are together what the query finds. -/
theorem itemsRead_eq (h : Browse n q s [] visits) (hl : q.limit = some n) :
    itemsRead visits = q.found s.items.rows := by
  have hread := h.pairwise hl
  have hfound := q.sort_pairwise (s.distinct_items.filter fun i => q.accepts i && q.isAfter i)
  have hstore : ∀ v ∈ visits, v.store = s := by
    intro v hv
    obtain ⟨k, -, hk⟩ := h.store_eq v hv
    rwa [List.take_nil] at hk
  have hstored : ∀ i ∈ itemsRead visits, i ∈ s.items.rows := by
    intro i hi
    obtain ⟨v, hv, hi⟩ := List.mem_flatMap.1 hi
    exact hstore v hv ▸ h.stored hl v hv i hi
  refine Query.eq_of_perm hread hfound ?_
  refine (List.perm_ext_iff_of_nodup (Query.nodup_of_pairwise hread)
    (Query.nodup_of_pairwise hfound)).2 fun i => ?_
  constructor
  · intro hi
    exact Query.mem_found.2 ⟨hstored i hi, h.found hl i hi⟩
  · intro hi
    obtain ⟨hi, haccepts, hafter⟩ := Query.mem_found.1 hi
    exact h.mem_of_stays hl haccepts hafter fun v hv => (hstore v hv).symm ▸ hi

/-! ## The end of the reading -/

/-- A page that is full has a last item. -/
theorem exists_last (hn : 0 < n) {page : List OrderItem} (hfull : n ≤ page.length) :
    ∃ last, page.getLast? = some last := by
  cases h : page.getLast? with
  | some last => exact ⟨last, rfl⟩
  | none =>
    rw [List.getLast?_eq_none_iff.1 h] at hfull
    exact absurd hfull (Nat.not_le.2 hn)

/-- Where nothing is written any more every page leaves fewer items behind it. -/
theorem exists_still (hn : 0 < n) (s : Store) : ∀ (m : Nat) {q : Query},
    q.limit = some n → q.comparedFields.length ≤ 1 → (q.found s.items.rows).length ≤ m →
      ∃ visits, Browse n q s [] visits
  | m, q, hl, hc, hm => by
    have hpage := Store.find_eq (s := s) hc
    rw [Query.page_eq hl] at hpage
    by_cases hshort : ((q.found s.items.rows).take n).length < n
    · exact ⟨_, .close hpage hshort⟩
    have hfull := Nat.not_lt.1 hshort
    obtain ⟨last, hlast⟩ := exists_last hn hfull
    rw [List.length_take] at hfull
    have hrest := q.found_behind_page s.distinct_items hlast
    cases m with
    | zero => omega
    | succ m =>
      obtain ⟨visits, hvisits⟩ := exists_still hn s m (q := q.behind last) hl hc (by
        rw [hrest, List.length_drop]
        omega)
      exact ⟨_, .turn hpage (Nat.not_lt.1 hshort) hlast hvisits⟩

/-- The reading ends behind the last change at the latest. -/
theorem exists_browse (hn : 0 < n) : ∀ (batches : List (List Write)) (s : Store) {q : Query},
    q.limit = some n → q.comparedFields.length ≤ 1 → ∃ visits, Browse n q s batches visits
  | [], s, _, hl, hc => exists_still hn s _ hl hc (Nat.le_refl _)
  | changes :: batches, s, q, hl, hc => by
    have hpage := Store.find_eq (s := s) hc
    by_cases hshort : (q.page s.items.rows).length < n
    · exact ⟨_, .close hpage hshort⟩
    have hfull := Nat.not_lt.1 hshort
    obtain ⟨last, hlast⟩ := exists_last hn hfull
    obtain ⟨visits, hvisits⟩ :=
      exists_browse hn batches (s.writes changes) (q := q.behind last) hl hc
    exact ⟨_, .turn hpage hfull hlast hvisits⟩

end Browse

/-! ## Nothing is lost -/

/-- Reading page by page ends, whatever is written between the pages: the items read are in
    strict order, those that stay stored are each read once, and the loop over pages gives
    just these. -/
theorem browse_loses_nothing {n : Nat} {q : Query} (hn : 0 < n) (hlimit : q.limit = some n)
    (hstart : q.startAfter = none) (hcompared : q.comparedFields.length ≤ 1) (s : Store)
    (batches : List (List Write)) :
    (∃ visits, Browse n q s batches visits) ∧
      ∀ visits, Browse n q s batches visits →
        (itemsRead visits).Pairwise (fun a b => q.sortKey.compare a b = .lt) ∧
        (∀ i, q.accepts i = true → (∀ v ∈ visits, i ∈ v.store.items.rows) →
          (itemsRead visits).count i = 1) ∧
        ∀ extent fuel, visits.length ≤ fuel →
          ((pagesFrom (Store.contended extent) n fuel q).run (s, batches)).1 =
            (itemsRead visits, none) := by
  refine ⟨Browse.exists_browse hn batches s hlimit hcompared, fun visits h => ?_⟩
  have hsorted := h.pairwise hlimit
  refine ⟨hsorted, fun i haccepts hstays => ?_, fun _ => h.pagesFrom_eq⟩
  have hafter : q.isAfter i = true := by
    rw [Query.isAfter, hstart]
  exact List.count_eq_one_of_mem (Query.nodup_of_pairwise hsorted)
    (h.mem_of_stays hlimit haccepts hafter hstays)

/-- The item of the bid is read although the ask goes and another one comes. -/
theorem browse_loses_nothing_market :
    let q := { Query.all with limit := some 1 }
    let ask := Search.standingOrder "new" "carol" .sell
    let batches := [[Write.remove "ask"], [.insert ask [Search.onlyLine ask]]]
    let bid := Search.onlyLine (Search.standingOrder "bid" "bob" .buy)
    (0 < 1 ∧ q.limit = some 1 ∧ q.startAfter = none ∧ q.comparedFields.length ≤ 1) ∧
      ∃ visits, Browse 1 q Search.market batches visits ∧ (itemsRead visits).count bid = 1 := by
  intro q ask batches bid
  have hcompared : q.comparedFields.length ≤ 1 := by decide
  obtain ⟨⟨visits, hvisits⟩, hread⟩ :=
    browse_loses_nothing Nat.one_pos rfl rfl hcompared Search.market batches
  obtain ⟨-, hcount, -⟩ := hread visits hvisits
  have hstays : ∀ k ≤ batches.length,
      bid ∈ (Search.market.writes (batches.take k).flatten).items.rows := by decide +kernel
  refine ⟨⟨Nat.one_pos, rfl, rfl, hcompared⟩, visits, hvisits, hcount bid rfl fun v hv => ?_⟩
  obtain ⟨k, hk, hstore⟩ := hvisits.store_eq v hv
  rw [hstore]
  exact hstays k hk

/-- The candidates of an item are read in full, each once and in order, whatever the size of
    a page. -/
theorem possibleMatches_complete (s : Store) (item : OrderItem) (chain : Chain) :
    ∃ docs, s.find (chain.query item) = .ok docs ∧
      docs.Pairwise (fun a b => (chain.query item).sortKey.compare a b = .lt) ∧ docs.Nodup ∧
      (∀ i, i ∈ docs ↔ i ∈ s.items.rows ∧ (chain.query item).accepts i = true) ∧
      ∀ pageSize, possibleMatches s.environment chain item pageSize = (docs, none) ∧
        ∃ visits,
          Browse (max pageSize 1) { chain.query item with limit := some (max pageSize 1) } s []
            visits ∧
          itemsRead visits = docs ∧ visits.length = docs.length / max pageSize 1 + 1 := by
  have hcompared := Chain.length_comparedFields chain item
  have hsorted := Query.sort_pairwise (chain.query item)
    (s.distinct_items.filter fun i => (chain.query item).accepts i && (chain.query item).isAfter i)
  refine ⟨(chain.query item).found s.items.rows, Store.find_eq hcompared, hsorted,
    Query.nodup_of_pairwise hsorted, fun i => ?_, fun pageSize => ⟨?_, ?_⟩⟩
  · rw [Query.mem_found]
    exact and_congr_right fun _ => and_iff_left rfl
  · exact (possibleMatches_returns s.environment_reads hcompared pageSize).symm
  · have hn : 0 < max pageSize 1 := by omega
    obtain ⟨visits, h⟩ := Browse.exists_browse hn [] s
      (q := { chain.query item with limit := some (max pageSize 1) }) rfl hcompared
    have hdocs : itemsRead visits = (chain.query item).found s.items.rows := h.itemsRead_eq rfl
    refine ⟨visits, h, hdocs, ?_⟩
    rw [← hdocs]
    exact h.length_eq hn rfl

end Matchbook
