/-
  What the names of records say.

  * `matchId_eq_iff`: two names are equal if the same is hashed, or else if the hash does
    not tell it apart (`Sha256.Collide`);
  * `IsFound`: the records of searches, whatever is stored; `IsFound.id_eq`: each is named
    for the items that take part in it;
  * `names_participants`: so a name says which items take part, and how often, if their
    ids are lines; `names_broken_lines`: else it does not.
-/
import Matchbook.Proofs.Record.Naming
import Matchbook.Proofs.Search.Vetting

namespace Matchbook

/-- Different messages that have the same hash. -/
def Sha256.Collide (a b : List UInt8) : Prop := a ≠ b ∧ Sha256.hex a = Sha256.hex b

theorem matchId_eq_iff {ids ids' : List String} : matchId ids = matchId ids' ↔
    idBytes ids = idBytes ids' ∨ Sha256.Collide (idBytes ids) (idBytes ids') := by
  constructor
  · exact fun h => or_iff_not_imp_left.2 fun hne => ⟨hne, h⟩
  · rintro (h | ⟨-, h⟩)
    · exact congrArg Sha256.hex h
    · exact h

/-- The ids of the items that take part, pair by pair. -/
def MatchRecord.participants (record : MatchRecord) : List String :=
  record.pairs.flatMap fun p => [p.item.id, p.opposing.id]

namespace Search

variable {chain : Chain} {root : LoadedOrder} {candidates : List LoadedOrder}

/-! ## The records of a search -/

/-- The record is named for the items that take part. -/
def IsNamed (record : MatchRecord) : Prop := record.id = matchId record.participants

theorem pair_named {outcome : Outcome} (h : pair chain root candidates = .ok outcome) :
    ∀ record ∈ outcome.records, IsNamed record := by
  rw [pair_eq] at h
  split at h
  · obtain ⟨ps, -, h⟩ := bind_eq_ok.1 h
    obtain rfl := pure_eq_ok.1 h
    generalize (ps.mergeSort _).find? _ = found
    cases found with
    | none => exact List.forall_mem_nil _
    | some p => exact List.forall_mem_singleton.2 rfl
  · obtain rfl := Except.ok.inj h
    exact List.forall_mem_nil _

theorem settle_named {order : Order} {filling : List (OrderItem × List OrderItem)}
    {outcome : Outcome} (h : settle chain order filling = .ok outcome) :
    ∀ record ∈ outcome.records, IsNamed record := by
  rcases settle_cases h with hnone | ⟨-, deal, -, hrecords⟩
  · rw [hnone]
    exact List.forall_mem_nil _
  · rw [hrecords]
    exact List.forall_mem_singleton.2 rfl

/-- Filling gives a record where it settles what flows, and nowhere else. -/
theorem tryFill_named {outcome : Outcome} (h : tryFill chain root candidates = .ok outcome) :
    ∀ record ∈ outcome.records, IsNamed record := by
  have hnothing : ∀ {event : Event} {outcome : Outcome},
      (pure (.nothing event) : Except Interruption Outcome) = .ok outcome →
        ∀ record ∈ outcome.records, IsNamed record := by
    intro event outcome h
    obtain rfl := pure_eq_ok.1 h
    exact List.forall_mem_nil _
  unfold tryFill at h
  split at h
  · exact hnothing h
  split at h
  · exact hnothing h
  obtain ⟨placed, -, h⟩ := bind_eq_ok.1 h
  obtain ⟨ranked, -, h⟩ := bind_eq_ok.1 h
  obtain ⟨linked, -, h⟩ := bind_eq_ok.1 h
  dsimp only at h
  split at h
  · exact hnothing h
  · obtain ⟨filling, -, h⟩ := bind_eq_ok.1 h
    exact settle_named (mapError_eq_ok.1 h)

theorem fill_named {outcome : Outcome} (h : fill chain root candidates = .ok outcome) :
    ∀ record ∈ outcome.records, IsNamed record := by
  unfold fill orReport at h
  split at h
  · next hfill =>
    obtain rfl := Except.ok.inj h
    exact tryFill_named hfill
  · obtain rfl := Except.ok.inj h
    exact List.forall_mem_nil _
  · cases h

/-- Some search found the record, in some store. -/
def IsFound (record : MatchRecord) : Prop :=
  ∃ (search : Search) (s : Store) (possible : Option (List OrderItem)) (journal : Journal)
    (result : SearchResult),
      search.inMemory s possible journal = .ok result ∧ record ∈ result.records

/-- **Naming**: what is found is named for the items that take part. -/
theorem IsFound.id_eq {record : MatchRecord} (h : IsFound record) :
    record.id = matchId record.participants := by
  obtain ⟨search, s, possible, journal, result, hresult, hrecord⟩ := h
  rw [inMemory_eq_capped] at hresult
  obtain ⟨root, -, hresult⟩ := bind_eq_ok.1 hresult
  obtain ⟨sifted, -, hresult⟩ := bind_eq_ok.1 hresult
  obtain ⟨pairs, hpairs, hresult⟩ := bind_eq_ok.1 hresult
  obtain ⟨fills, hfills, hresult⟩ := bind_eq_ok.1 hresult
  obtain rfl := pure_eq_ok.1 hresult
  rcases List.mem_append.1 hrecord with hrecord | hrecord
  · rcases enabled_cases hpairs with rfl | ⟨outcome, houtcome, rfl⟩
    · cases hrecord
    · exact pair_named houtcome record hrecord
  · rcases enabled_cases hfills with rfl | ⟨outcome, houtcome, rfl⟩
    · cases hrecord
    · exact fill_named houtcome record hrecord

/-! ## Names and participants -/

/-- **A name says who takes part**, in whatever order, and how often, if the ids of the
    items are lines and the hash tells apart what is hashed.  What is hashed are the
    lines of the ids. -/
theorem names_participants (ids ids' : List String) :
    (idBytes ids = idBytes ids' ↔
      (sortedIds ids).flatMap idLines = (sortedIds ids').flatMap idLines) ∧
    (ids'.Perm ids → idBytes ids = idBytes ids') ∧
    ((∀ id ∈ ids ++ ids', IsLine id) → (idBytes ids = idBytes ids' ↔ ids'.Perm ids) ∧
      ∀ record record', IsFound record → IsFound record' →
        record.participants = ids → record'.participants = ids' →
          (record.id = record'.id ↔
            ids'.Perm ids ∨ Sha256.Collide (idBytes ids) (idBytes ids'))) := by
  refine ⟨idBytes_eq_iff_lines, fun hperm => ?_, fun hlines => ?_⟩
  · rw [idBytes, idBytes, sortedIds_perm hperm]
  · have hbytes := idBytes_eq_iff_perm hlines
    refine ⟨hbytes, ?_⟩
    rintro record record' hrecord hrecord' rfl rfl
    rw [hrecord.id_eq, hrecord'.id_eq, matchId_eq_iff, hbytes]

/-- A listing and an offer for the same token, under these ids. -/
def marketOf (ask bid : String) : Store :=
  let ask := standingOrder ask "alice" .sell
  let bid := standingOrder bid "bob" .buy
  (Store.empty.insert ask [onlyLine ask]).insert bid [onlyLine bid]

/-- The search for the listing finds the offer. -/
theorem isFound_of_marketOf {ask bid : String}
    (h : ((ofOrder (standingOrder ask "alice" .sell)).inMemory (marketOf ask bid) none
      .empty).toOption.map (fun result => result.records.map (·.participants)) =
        some [[ask, bid]]) :
    ∃ record, IsFound record ∧ record.participants = [ask, bid] := by
  obtain ⟨result, hresult, hids⟩ := Option.map_eq_some_iff.1 h
  obtain ⟨record, hrecord, hparticipants⟩ :=
    List.mem_map.1 (hids ▸ List.mem_singleton_self [ask, bid])
  exact ⟨record, ⟨_, _, _, _, result, toOption_eq_some_iff.1 hresult, hrecord⟩, hparticipants⟩

/-- Records of one listing and two offers have different names, but for a collision. -/
theorem names_participants_market :
    let ids := ["ask", "bid"]
    let ids' := ["ask", "bids"]
    (∀ id ∈ ids ++ ids', IsLine id) ∧ idBytes ids ≠ idBytes ids' ∧
      ∃ record record', IsFound record ∧ IsFound record' ∧ record.participants = ids ∧
        record'.participants = ids' ∧
          (record.id = record'.id ↔ Sha256.Collide (idBytes ids) (idBytes ids')) := by
  intro ids ids'
  have hlines : ∀ id ∈ ids ++ ids', IsLine id := by decide
  have hperm : ¬ ids'.Perm ids := by decide
  obtain ⟨record, hrecord, hids⟩ : ∃ record, IsFound record ∧ record.participants = ids :=
    isFound_of_marketOf (by decide +kernel)
  obtain ⟨record', hrecord', hids'⟩ : ∃ record, IsFound record ∧ record.participants = ids' :=
    isFound_of_marketOf (by decide +kernel)
  obtain ⟨hbytes, hnames⟩ := (names_participants ids ids').2.2 hlines
  refine ⟨hlines, fun h => hperm (hbytes.1 h), record, record', hrecord, hrecord', hids, hids', ?_⟩
  rw [hnames record record' hrecord hrecord' hids hids', or_iff_right hperm]

/-- Ids with line feeds in them are not told apart: two records have the same name, although
    no item takes part in both. -/
theorem names_broken_lines :
    let ids := ["a\nb", "c"]
    let ids' := ["a", "b\nc"]
    idBytes ids = idBytes ids' ∧ ¬ ids'.Perm ids ∧
      ∃ record record', IsFound record ∧ IsFound record' ∧ record.participants = ids ∧
        record'.participants = ids' ∧ record.id = record'.id := by
  intro ids ids'
  have hsorted : ∀ ids : List String, ids.Pairwise (fun a b => decide (a ≤ b) = true) →
      sortedIds ids = ids := fun ids h => List.mergeSort_of_pairwise h
  have hbytes : idBytes ids = idBytes ids' := by
    rw [idBytes_eq_iff_lines, hsorted ids (by decide +kernel), hsorted ids' (by decide +kernel)]
    decide +kernel
  obtain ⟨record, hrecord, hids⟩ : ∃ record, IsFound record ∧ record.participants = ids :=
    isFound_of_marketOf (by decide +kernel)
  obtain ⟨record', hrecord', hids'⟩ : ∃ record, IsFound record ∧ record.participants = ids' :=
    isFound_of_marketOf (by decide +kernel)
  refine ⟨hbytes, by decide, record, record', hrecord, hrecord', hids, hids', ?_⟩
  rw [hrecord.id_eq, hrecord'.id_eq, hids, hids', matchId_eq_iff]
  exact .inl hbytes

end Search
end Matchbook
