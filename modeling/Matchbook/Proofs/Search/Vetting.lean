/-
  What a search says holds in the store, whatever items it is given.

  * `Vouched`: the orders that a search can name; it takes no more than their ids from
    the items it is given;
  * `records_cases`: the records of a search, in either way or none;
  * `IsVetted`: every pair of a record joins items that are stored and that the chain
    accepts, and the orders that are left to another search are what it says of them;
    `inMemory_vetted` proves it of every search;
  * `inMemory_beyond_cap`: the root's own items do not count for the cap.
-/
import Matchbook.Proofs.Search.Fill
import Matchbook.Proofs.Search.Optimal

namespace Matchbook

/-- The pairs of items that a record matches. -/
def MatchRecord.pairs : MatchRecord → List ItemPair
  | oneToOne _ pair _ => [pair]
  | oneToMany _ pairs _ => pairs

namespace Search

/-! ## The orders that pass -/

/-- The order is stored as it is, and so are its items; it is not the root, some item
    that was given names it, and it is among the first orders so named if their number
    is capped. -/
structure Vouched (s : Store) (search : Search) (docs : List OrderItem) (order : Order) :
    Prop where
  stored : s.order? order.id = some order
  other : order.id ≠ search.root.id
  named : ∃ doc ∈ docs, doc.orderId = order.id
  complete : ∃ loaded, order.bind (s.itemsOf order.id) = .ok loaded
  within : ∀ n, search.config.maxCandidateOrders = some n →
    order.id ∈ ((docs.map (·.orderId)).filter (· != search.root.id)).eraseDups.take n

variable {s : Store} {search : Search} {chain : Chain} {root : LoadedOrder}

theorem mem_of_mem_capped {cap : Option Nat} {ids : List String} {id : String}
    (h : id ∈ capped cap ids) : id ∈ ids ∧ ∀ n, cap = some n → id ∈ ids.take n := by
  cases cap with
  | none => exact ⟨h, nofun⟩
  | some n =>
    refine ⟨List.mem_of_mem_take h, ?_⟩
    rintro _ ⟨⟩
    exact h

theorem capped_sublist (cap : Option Nat) (ids : List String) : (capped cap ids).Sublist ids := by
  cases cap with
  | none => exact .refl _
  | some n => exact List.take_sublist _ _

/-- What passes is a candidate that is stored under one of the ids. -/
theorem candidate?_of_found {ids : List String} (hids : ∀ id ∈ ids, id ≠ root.order.id)
    {found : List (Option LoadedOrder)} (h : ids.mapM (s.verdict chain root) = .ok found)
    {c : LoadedOrder} (hc : c ∈ found.filterMap id) :
    c.order.id ∈ ids ∧ s.order? c.order.id = some c.order ∧
      s.candidate? chain root c.order = some c := by
  obtain ⟨_, hfound, rfl⟩ := List.mem_filterMap.1 hc
  obtain ⟨id, hid, hverdict⟩ := (mem_mapM_iff h).1 hfound
  obtain ⟨order, hmem, rfl, hcandidate⟩ := (verdict_iff (hids id hid) hverdict).1 rfl
  rw [order_eq_of_candidate? hcandidate]
  exact ⟨hid, Table.get?_eq_some_iff.2 ⟨hmem, rfl⟩, hcandidate⟩

/-- No id passes twice. -/
theorem found_sublist {ids : List String} (hids : ∀ id ∈ ids, id ≠ root.order.id)
    {found : List (Option LoadedOrder)} (h : ids.mapM (s.verdict chain root) = .ok found) :
    ((found.filterMap id).map (·.order.id)).Sublist ids := by
  induction ids generalizing found with
  | nil =>
    obtain rfl := pure_eq_ok.1 h
    exact .slnil
  | cons id ids ih =>
    obtain ⟨hid, hrest⟩ := List.forall_mem_cons.1 hids
    rw [List.mapM_cons] at h
    obtain ⟨v, hv, h⟩ := bind_eq_ok.1 h
    obtain ⟨vs, hvs, h⟩ := bind_eq_ok.1 h
    obtain rfl := pure_eq_ok.1 h
    cases v with
    | none => exact (ih hrest hvs).cons _
    | some c =>
      obtain ⟨order, -, rfl, hcandidate⟩ := (verdict_iff hid hv).1 rfl
      rw [show (some c :: vs).filterMap id = c :: vs.filterMap id from rfl, List.map_cons,
        order_eq_of_candidate? hcandidate]
      exact (ih hrest hvs).cons_cons _

/-! ## The records -/

/-- The pair joins an item of the root with an item of a candidate for one token, and
    the chain accepts it. -/
structure Joins (chain : Chain) (root : LoadedOrder) (candidates : List LoadedOrder)
    (p : ItemPair) : Prop where
  item_mem : p.item ∈ root.items
  opposing_mem : ∃ c ∈ candidates, c.order.numItems = 1 ∧ p.opposing ∈ c.items
  accepted : chain.accepts p.item p.opposing = .ok true

/-- Pairing gives one record at most, of items that it joins. -/
theorem pair_cases {candidates : List LoadedOrder} {outcome : Outcome}
    (h : pair chain root candidates = .ok outcome) : outcome.records = [] ∨
      root.order.numItems = 1 ∧ ∃ id p deal, outcome.records = [.oneToOne id p deal] ∧
        Joins chain root candidates p := by
  rw [pair_eq] at h
  by_cases hone : root.order.numItems = 1
  · rw [if_pos hone] at h
    obtain ⟨ps, hps, h⟩ := bind_eq_ok.1 h
    obtain rfl := pure_eq_ok.1 h
    cases hfind : (ps.mergeSort fun a b =>
        (Prospect.compare root.order.side a b).isLE).find? Prospect.isOpen with
    | none => exact Or.inl rfl
    | some p =>
      obtain ⟨hmem, hopen, -⟩ := find?_mergeSort_le hfind
      have hdeal := (isDeal_iff hps hone).2 ⟨hmem, hopen⟩
      obtain ⟨c, hc, -, hsingle, hopposing⟩ := hdeal.opposing_mem
      exact Or.inr ⟨hone, _, p.pair, p.deal, rfl, hdeal.item_mem, ⟨c, hc, hsingle, hopposing⟩,
        hdeal.accepted⟩
  · rw [if_neg hone] at h
    obtain rfl := Except.ok.inj h
    exact Or.inl rfl

/-- So does filling. -/
theorem fill_cases {candidates : List LoadedOrder} (hbound : ∀ c ∈ candidates, c.Bound)
    (hd : (candidates.map (·.order.id)).Nodup) {outcome : Outcome}
    (h : fill chain root candidates = .ok outcome) : outcome.records = [] ∨
      1 < root.order.numItems ∧ ∃ id pairs deal, outcome.records = [.oneToMany id pairs deal] ∧
        ∀ p ∈ pairs, Joins chain root candidates p := by
  refine ((tryFill_gives chain root hbound hd).orReport h).imp_right ?_
  rintro ⟨hmultiple, -, pairs, deal, hallotment, -, hrecords⟩
  refine ⟨hmultiple, _, pairs, deal, hrecords, fun p hp => ?_⟩
  obtain ⟨c, hc, -, hsingle, hopposing⟩ := hallotment.opposing_mem p hp
  have hitem : p.item ∈ root.items := by
    have hmem := List.mem_map_of_mem (f := ItemPair.item) hp
    rw [hallotment.items] at hmem
    obtain ⟨i, hi, hmem⟩ := List.mem_flatMap.1 hmem
    exact List.eq_of_mem_replicate hmem ▸ hi
  exact ⟨hitem, ⟨c, hc, hsingle, hopposing⟩, hallotment.accepted p hp⟩

theorem enabled_cases {wanted : Bool} {x : Except ArithmeticError Outcome}
    {records : List MatchRecord} (h : enabled wanted x = .ok records) :
    records = [] ∨ ∃ outcome, x = .ok outcome ∧ records = outcome.records := by
  cases wanted with
  | false => exact Or.inl (Except.ok.inj h).symm
  | true =>
    cases x with
    | error e => cases h
    | ok outcome => exact Or.inr ⟨outcome, rfl, (Except.ok.inj h).symm⟩

/-- The records of a search: none, one of a pair for a root for one token, or one of
    several pairs for a root for several. -/
theorem records_cases {config : Config} {candidates : List LoadedOrder}
    (hbound : ∀ c ∈ candidates, c.Bound) (hd : (candidates.map (·.order.id)).Nodup)
    {pairs fills : List MatchRecord}
    (hpairs : enabled config.oneToOne (pair chain root candidates) = .ok pairs)
    (hfills : enabled config.oneToMany (fill chain root candidates) = .ok fills) :
    pairs ++ fills = [] ∨
      (root.order.numItems = 1 ∧ ∃ id p deal, pairs ++ fills = [.oneToOne id p deal] ∧
        Joins chain root candidates p) ∨
      1 < root.order.numItems ∧ ∃ id ps deal, pairs ++ fills = [.oneToMany id ps deal] ∧
        ∀ p ∈ ps, Joins chain root candidates p := by
  have hpair : pairs = [] ∨ root.order.numItems = 1 ∧ ∃ id p deal,
      pairs = [.oneToOne id p deal] ∧ Joins chain root candidates p := by
    rcases enabled_cases hpairs with hnone | ⟨outcome, houtcome, rfl⟩
    · exact Or.inl hnone
    · exact pair_cases houtcome
  have hfill : fills = [] ∨ 1 < root.order.numItems ∧ ∃ id ps deal,
      fills = [.oneToMany id ps deal] ∧ ∀ p ∈ ps, Joins chain root candidates p := by
    rcases enabled_cases hfills with hnone | ⟨outcome, houtcome, rfl⟩
    · exact Or.inl hnone
    · exact fill_cases hbound hd houtcome
  rcases hpair with rfl | ⟨hone, id, p, deal, rfl, hjoins⟩
  · rcases hfill with rfl | ⟨hmultiple, id, ps, deal, rfl, hjoins⟩
    · exact Or.inl rfl
    · exact Or.inr (Or.inr ⟨hmultiple, id, ps, deal, rfl, hjoins⟩)
  · rcases hfill with rfl | ⟨hmultiple, -⟩
    · exact Or.inr (Or.inl ⟨hone, id, p, deal, rfl, hjoins⟩)
    · rw [hone] at hmultiple
      exact absurd hmultiple (by decide)

/-! ## The answer -/

/-- What a search says holds in the store. -/
structure IsVetted (s : Store) (search : Search) (docs : List OrderItem)
    (result : SearchResult) : Prop where
  single : result.records.length ≤ 1
  oneToOne : ∀ id pair deal, .oneToOne id pair deal ∈ result.records → search.root.numItems = 1
  oneToMany : ∀ id pairs deal, .oneToMany id pairs deal ∈ result.records →
    1 < search.root.numItems
  /-- Every pair joins an item of the root with one of a vouched order for one token. -/
  pairs : ∀ record ∈ result.records, ∀ p ∈ record.pairs, p.item ∈ s.itemsOf search.root.id ∧
    (∃ order, Vouched s search docs order ∧ order.numItems = 1 ∧
      p.opposing ∈ s.itemsOf order.id) ∧
    search.chain.accepts p.item p.opposing = .ok true
  scan_root : result.requiresScan ≠ [] → search.root.numItems = 1
  scan_nodup : (result.requiresScan.map (·.id)).Nodup
  /-- Every order that is left to another search is a vouched one for several tokens, with
      an item that is accepted, and in no record. -/
  scan : ∀ order ∈ result.requiresScan, Vouched s search docs order ∧ 1 < order.numItems ∧
    (∀ record ∈ result.records, ∀ p ∈ record.pairs, p.opposing.orderId ≠ order.id) ∧
    ∃ r ∈ s.itemsOf search.root.id, ∃ i ∈ s.itemsOf order.id,
      search.chain.accepts r i = .ok true

/-- A candidate that passes is vouched for, with the items that are stored, some of which
    is accepted. -/
structure Passed (s : Store) (search : Search) (docs : List OrderItem) (root c : LoadedOrder) :
    Prop where
  vouched : Vouched s search docs c.order
  items : c.items = s.itemsOf c.order.id
  bound : c.Bound
  admits : search.chain.admitsAny root c = true

theorem passed_of_found {docs : List OrderItem} {found : List (Option LoadedOrder)}
    (hroot : root.order = search.root)
    (hfound : (capped search.config.maxCandidateOrders (candidateIds root.order.id docs)).mapM
      (s.verdict search.chain root) = .ok found) :
    (∀ c ∈ found.filterMap id, Passed s search docs root c) ∧
      ((found.filterMap id).map (·.order.id)).Nodup := by
  have hids : ∀ id ∈ capped search.config.maxCandidateOrders (candidateIds root.order.id docs),
      id ≠ root.order.id := fun id hid => (mem_candidateIds.1 (mem_of_mem_capped hid).1).1
  refine ⟨fun c hc => ?_,
    (nodup_eraseDups _).sublist ((found_sublist hids hfound).trans (capped_sublist _ _))⟩
  obtain ⟨hid, hstored, hcandidate⟩ := candidate?_of_found hids hfound hc
  obtain ⟨hmem, hwithin⟩ := mem_of_mem_capped hid
  obtain ⟨hother, hdoc⟩ := mem_candidateIds.1 hmem
  obtain ⟨-, hbind, hadmits⟩ := candidate?_eq_some.1 hcandidate
  rw [hroot] at hother hwithin
  have hitems : c.items = s.itemsOf c.order.id := congrArg LoadedOrder.items (eq_of_bind hbind)
  refine ⟨⟨hstored, hother, hdoc, ⟨c, hbind⟩, hwithin⟩, hitems, ?_, hadmits⟩
  rwa [LoadedOrder.Bound, hitems]

/-- What is made of the candidates that passed is vetted. -/
theorem isVetted_of_passed {docs : List OrderItem} {cs : List LoadedOrder}
    (hroot : root.order = search.root) (hitems : root.items = s.itemsOf search.root.id)
    (hpassed : ∀ c ∈ cs, Passed s search docs root c) (hd : (cs.map (·.order.id)).Nodup)
    {pairs fills : List MatchRecord}
    (hpairs : enabled search.config.oneToOne
      (pair search.chain root (cs.filter fun c => !needsScan root c)) = .ok pairs)
    (hfills : enabled search.config.oneToMany
      (fill search.chain root (cs.filter fun c => !needsScan root c)) = .ok fills) :
    IsVetted s search docs ⟨pairs ++ fills, (cs.filter (needsScan root)).map (·.order)⟩ := by
  have hrecords := records_cases (fun c hc => (hpassed c (List.mem_of_mem_filter hc)).bound)
    (hd.sublist (List.filter_sublist.map _)) hpairs hfills
  rw [hroot] at hrecords
  have hjoins : ∀ record ∈ pairs ++ fills, ∀ p ∈ record.pairs,
      Joins search.chain root (cs.filter fun c => !needsScan root c) p := by
    intro record hrecord p hp
    rcases hrecords with hnone | ⟨-, id, q, deal, hone, hjoins⟩ | ⟨-, id, ps, deal, hmany, hjoins⟩
    · rw [hnone] at hrecord
      cases hrecord
    · rw [hone] at hrecord
      obtain rfl := List.mem_singleton.1 hrecord
      exact List.mem_singleton.1 hp ▸ hjoins
    · rw [hmany] at hrecord
      obtain rfl := List.mem_singleton.1 hrecord
      exact hjoins p hp
  have hopposing : ∀ record ∈ pairs ++ fills, ∀ p ∈ record.pairs, ∃ c ∈ cs,
      c.order.numItems = 1 ∧ p.opposing ∈ c.items := by
    intro record hrecord p hp
    obtain ⟨c, hc, hone, hmem⟩ := (hjoins record hrecord p hp).opposing_mem
    exact ⟨c, List.mem_of_mem_filter hc, hone, hmem⟩
  have hscan : ∀ c ∈ cs.filter (needsScan root), c ∈ cs ∧ root.order.numItems = 1 ∧
      1 < c.order.numItems := by
    intro c hc
    obtain ⟨hc, hneeds⟩ := List.mem_filter.1 hc
    obtain ⟨hone, hseveral⟩ := Bool.and_eq_true_iff.1 hneeds
    exact ⟨hc, beq_iff_eq.1 hone, of_decide_eq_true hseveral⟩
  constructor
  case single =>
    rcases hrecords with hnone | ⟨-, id, q, deal, hone, -⟩ | ⟨-, id, ps, deal, hmany, -⟩
    · simp [hnone]
    · simp [hone]
    · simp [hmany]
  case oneToOne =>
    intro id p deal hmem
    rcases hrecords with hnone | ⟨hone, -⟩ | ⟨-, _, _, _, hmany, -⟩
    · simp [hnone] at hmem
    · exact hone
    · simp [hmany] at hmem
  case oneToMany =>
    intro id ps deal hmem
    rcases hrecords with hnone | ⟨-, _, _, _, hone, -⟩ | ⟨hmultiple, -⟩
    · simp [hnone] at hmem
    · simp [hone] at hmem
    · exact hmultiple
  case pairs =>
    intro record hrecord p hp
    have hjoin := hjoins record hrecord p hp
    obtain ⟨c, hc, hone, hmem⟩ := hopposing record hrecord p hp
    exact ⟨hitems ▸ hjoin.item_mem,
      ⟨c.order, (hpassed c hc).vouched, hone, (hpassed c hc).items ▸ hmem⟩, hjoin.accepted⟩
  case scan_root =>
    intro hne
    obtain ⟨order, horder⟩ := List.exists_mem_of_ne_nil _ hne
    obtain ⟨c, hc, -⟩ := List.mem_map.1 horder
    exact hroot ▸ (hscan c hc).2.1
  case scan_nodup =>
    rw [List.map_map]
    exact hd.sublist (List.filter_sublist.map _)
  case scan =>
    intro order horder
    obtain ⟨c, hc, rfl⟩ := List.mem_map.1 horder
    obtain ⟨hc, -, hseveral⟩ := hscan c hc
    have hpass := hpassed c hc
    refine ⟨hpass.vouched, hseveral, fun record hrecord p hp heq => ?_, ?_⟩
    · -- the store has one order of this id only
      obtain ⟨c', hc', hone, hmem⟩ := hopposing record hrecord p hp
      rw [(hpassed c' hc').bound.orderId hmem] at heq
      have hstored := (hpassed c' hc').vouched.stored
      rw [heq, hpass.vouched.stored] at hstored
      rw [Option.some.inj hstored, hone] at hseveral
      exact absurd hseveral (by decide)
    · obtain ⟨i, hi, hany⟩ := List.any_eq_true.1 hpass.admits
      obtain ⟨r, hr, hadmits⟩ := List.any_eq_true.1 hany
      exact ⟨r, hitems ▸ hr, i, hpass.items ▸ hi, Chain.admits_iff.1 hadmits⟩

/-- **Nothing is taken on trust**: whatever items a search is given, however old, repeated or
    made up, what it says holds in the store. -/
theorem inMemory_vetted (s : Store) (search : Search) (docs : List OrderItem) (journal : Journal)
    {result : SearchResult} (h : search.inMemory s (some docs) journal = .ok result) :
    IsVetted s search docs result := by
  rw [inMemory_eq_capped] at h
  obtain ⟨root, hroot, h⟩ := bind_eq_ok.1 h
  obtain ⟨_, hsifted, h⟩ := bind_eq_ok.1 h
  obtain ⟨found, hfound, ⟨⟩⟩ := bind_eq_ok.1 hsifted
  obtain ⟨pairs, hpairs, h⟩ := bind_eq_ok.1 h
  obtain ⟨fills, hfills, h⟩ := bind_eq_ok.1 h
  obtain rfl := pure_eq_ok.1 h
  obtain rfl := eq_of_bind (mapError_eq_ok.1 hroot)
  obtain ⟨hpassed, hd⟩ := passed_of_found rfl hfound
  exact isVetted_of_passed rfl rfl hpassed hd hpairs hfills

/-- An item of no stored order and one that comes twice do no harm. -/
theorem inMemory_vetted_market :
    let search := ofOrder (standingOrder "ask" "alice" .sell)
    let bid := onlyLine (standingOrder "bid" "bob" .buy)
    let docs := [onlyLine (standingOrder "gone" "carol" .buy), bid, bid]
    ∃ result, search.inMemory market (some docs) .empty = .ok result ∧
      result.records.length = 1 ∧ IsVetted market search docs result := by
  intro search bid docs
  have hlength : (search.inMemory market (some docs) .empty).toOption.map (·.records.length) =
      some 1 := by decide +kernel
  obtain ⟨result, hresult, hlength⟩ := Option.map_eq_some_iff.1 hlength
  rw [toOption_eq_some_iff] at hresult
  exact ⟨result, hresult, hlength, inMemory_vetted market search docs .empty hresult⟩

/-- The root's own items do not count for the cap: an order can be matched although it is
    not among the first that the items name. -/
theorem inMemory_beyond_cap :
    let ask := standingOrder "ask" "alice" .sell
    let search :=
      { ofOrder ask with config := { Config.default with maxCandidateOrders := some 1 } }
    let docs := [onlyLine ask, onlyLine (standingOrder "bid" "bob" .buy)]
    ∃ result, search.inMemory market (some docs) .empty = .ok result ∧
      ∃ record ∈ result.records, ∃ p ∈ record.pairs,
        p.opposing.orderId ∉ (docs.map (·.orderId)).eraseDups.take 1 := by
  intro ask search docs
  have hids : (search.inMemory market (some docs) .empty).toOption.map
      (fun result => result.records.map fun record => record.pairs.map (·.opposing.orderId)) =
        some [["bid"]] := by decide +kernel
  obtain ⟨result, hresult, hids⟩ := Option.map_eq_some_iff.1 hids
  rw [toOption_eq_some_iff] at hresult
  have hbid : ["bid"] ∈ result.records.map fun record => record.pairs.map (·.opposing.orderId) :=
    hids ▸ List.mem_cons_self
  obtain ⟨record, hrecord, hpairs⟩ := List.mem_map.1 hbid
  have hbid : "bid" ∈ record.pairs.map (·.opposing.orderId) := hpairs ▸ List.mem_cons_self
  obtain ⟨p, hp, hid⟩ := List.mem_map.1 hbid
  refine ⟨result, hresult, record, hrecord, p, hp, ?_⟩
  rw [hid]
  decide

end Search
end Matchbook
