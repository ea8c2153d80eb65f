/-
  Collections as lists of nodes.

  * `Node.place` is what a node knows of its collection; `Graph.place?` looks it
    up, and `Aside i` says that an operation moves nodes into, out of and within
    the collection `i` only;
  * `Collection.Holds`: the places in a graph and the ends that a collection
    keeps spell out a list;
  * `add_cases`, `remove_spec` and `next_spec` say what joining, leaving and
    streaming make of this list.
-/
import Mathlib.Data.List.Nodup
import Mathlib.Data.List.Perm.Subperm
import Matchbook.Proofs.Flow.Stream
import Matchbook.Proofs.Flow.Unlink

namespace Matchbook.Flow

variable {α β : Type}

/-! ## Places -/

/-- What a node knows of its collection. -/
structure Place where
  collection : Option CollectionId
  next : Option NodeKey
  previous : Option NodeKey

/-- The place of a node without a collection. -/
def Place.free : Place := ⟨none, none, none⟩

/-- Whether the place is free or in this collection. -/
def Place.Near (i : CollectionId) (p : Place) : Prop := p = free ∨ p.collection = some i

/-- The place of a node. -/
def Node.place (n : Node α) : Place := ⟨n.collection, n.next, n.previous⟩

namespace Graph

/-- The place of the node behind a key. -/
def place? (g : Graph α) (k : NodeKey) : Option Place := (g.node? k).map Node.place

theorem place?_eq {g : Graph α} {k : NodeKey} {n : Node α} (h : g.node? k = some n) :
    g.place? k = some n.place := by simp [place?, h]

theorem exists_node_of_place? {g : Graph α} {k : NodeKey} {p : Place} (h : g.place? k = some p) :
    ∃ n, g.node? k = some n ∧ n.place = p := Option.map_eq_some_iff.1 h

theorem place?_modifyNode (g : Graph α) (k j : NodeKey) {f : Node α → Node α} {u : Place → Place}
    (hf : ∀ n, (f n).place = u n.place) :
    (g.modifyNode k f).place? j = if j = k then (g.place? j).map u else g.place? j := by
  simp only [place?, node?_modifyNode]
  split
  · simp only [Option.map_map]
    congr 1
    funext n
    exact hf n
  · rfl

/-- A node without a collection has no neighbours. -/
def Tidy (g : Graph α) : Prop := ∀ k p, g.place? k = some p → p.collection = none → p = .free

end Graph

theorem SamePlaces.place? {g g' : Graph α} (h : SamePlaces g g') (k : NodeKey) :
    g'.place? k = g.place? k := by
  have hp : (Node.place : Node α → Place) = Node.place ∘ Node.idle := rfl
  simp only [Graph.place?]
  rw [hp, ← Option.map_map, ← Option.map_map, h.node]

/-- Nodes move into, out of and within one collection only. -/
structure Aside (i : CollectionId) (g g' : Graph α) : Prop where
  place : ∀ k, g'.place? k = g.place? k ∨
    ∃ p p', g.place? k = some p ∧ g'.place? k = some p' ∧ p.Near i ∧ p'.Near i
  nextCollection : g'.nextCollection = g.nextCollection

namespace Aside

theorem of_samePlaces {g g' : Graph α} (i : CollectionId) (h : SamePlaces g g') : Aside i g g' :=
  ⟨fun k => Or.inl (h.place? k), h.nextCollection⟩

theorem tidy {i : CollectionId} {g g' : Graph α} (h : Aside i g g') (hg : g.Tidy) : g'.Tidy := by
  intro k p hp hc
  rcases h.place k with hk | ⟨-, p', -, hp', -, hn⟩
  · exact hg k p (hk ▸ hp) hc
  · rw [hp'] at hp
    cases hp
    rcases hn with hn | hn
    · exact hn
    · rw [hn] at hc
      cases hc

/-- A place in another collection stays, and no other comes to be. -/
theorem place?_iff {i : CollectionId} {g g' : Graph α} (h : Aside i g g') {j : CollectionId}
    (hj : j ≠ i) {p : Place} (hp : p.collection = some j) (k : NodeKey) :
    g'.place? k = some p ↔ g.place? k = some p := by
  have hfar : ¬ p.Near i := by
    rintro (rfl | hn)
    · cases hp
    · rw [hp] at hn
      exact hj (Option.some.inj hn)
  rcases h.place k with hk | ⟨q, q', hq, hq', hn, hn'⟩
  · rw [hk]
  · rw [hq, hq', Option.some.injEq, Option.some.injEq]
    constructor
    · rintro rfl
      exact absurd hn' hfar
    · rintro rfl
      exact absurd hn hfar

end Aside

namespace Collection

/-! ## The list of a collection -/

/-- The collection is the list `l`: every element knows its neighbours, and no
    other node belongs to the collection. -/
structure Holds (c : Collection β) (g : Graph α) (l : List NodeKey) : Prop where
  nodup : l.Nodup
  size : c.size = l.length
  head : c.head = l.head?
  tail : c.tail = l.getLast?
  cursor : ∀ {k}, c.cursor = some k → k ∈ l
  place : ∀ {xs k ys}, l = xs ++ k :: ys → g.place? k = some ⟨some c.id, ys.head?, xs.getLast?⟩
  only : ∀ {k p}, g.place? k = some p → p.collection = some c.id → k ∈ l

namespace Holds

variable {c d : Collection β} {g g' : Graph α} {l : List NodeKey}

/-- Exactly the elements belong to the collection. -/
theorem mem_iff (h : c.Holds g l) (k : NodeKey) :
    k ∈ l ↔ ∃ p, g.place? k = some p ∧ p.collection = some c.id := by
  constructor
  · intro hk
    obtain ⟨xs, ys, hl⟩ := List.append_of_mem hk
    exact ⟨_, h.place hl, rfl⟩
  · rintro ⟨p, hp, hc⟩
    exact h.only hp hc

theorem exists_node (h : c.Holds g l) {k : NodeKey} (hk : k ∈ l) : ∃ n, g.node? k = some n := by
  obtain ⟨p, hp, -⟩ := (h.mem_iff k).1 hk
  obtain ⟨n, hn, -⟩ := Graph.exists_node_of_place? hp
  exact ⟨n, hn⟩

/-- The links of an element lead to the elements beside it. -/
theorem links (h : c.Holds g l) {xs ys : List NodeKey} {k : NodeKey} (hl : l = xs ++ k :: ys) :
    (g.node? k).bind Node.next = ys.head? ∧ (g.node? k).bind Node.previous = xs.getLast? := by
  obtain ⟨n, hn, hp⟩ := Graph.exists_node_of_place? (h.place hl)
  injection hp with _ hnext hprevious
  rw [hn]
  exact ⟨hnext, hprevious⟩

/-- The next node of an element is the one whose previous node it is. -/
theorem next_iff_previous (h : c.Holds g l) {a b : NodeKey} (ha : a ∈ l) :
    (g.node? a).bind Node.next = some b ↔ b ∈ l ∧ (g.node? b).bind Node.previous = some a := by
  constructor
  · obtain ⟨xs, ys, hl⟩ := List.append_of_mem ha
    rw [(h.links hl).1]
    intro hy
    obtain ⟨zs, rfl⟩ := List.head?_eq_some_iff.1 hy
    have hl' : l = (xs ++ [a]) ++ b :: zs := by simpa using hl
    rw [(h.links hl').2]
    simp [hl]
  · rintro ⟨hb, hx⟩
    obtain ⟨xs, ys, hl⟩ := List.append_of_mem hb
    rw [(h.links hl).2] at hx
    obtain ⟨zs, rfl⟩ := List.getLast?_eq_some_iff.1 hx
    have hl' : l = zs ++ a :: b :: ys := by simpa using hl
    rw [(h.links hl').1]
    rfl

/-- A collection does not notice what happens outside of it. -/
theorem congr (h : c.Holds g l)
    (hg : ∀ k p, p.collection = some c.id → (g'.place? k = some p ↔ g.place? k = some p)) :
    c.Holds g' l where
  nodup := h.nodup
  size := h.size
  head := h.head
  tail := h.tail
  cursor := h.cursor
  place hl := (hg _ _ rfl).2 (h.place hl)
  only hp hc := h.only ((hg _ _ hc).1 hp) hc

theorem aside (h : c.Holds g l) {i : CollectionId} (hi : c.id ≠ i) (hg : Aside i g g') :
    c.Holds g' l :=
  h.congr fun k _ hp => hg.place?_iff hi hp k

theorem samePlaces (h : c.Holds g l) (hg : SamePlaces g g') : c.Holds g' l :=
  h.congr fun k p _ => by rw [hg.place? k]

end Holds

/-- An element of a list without repetition is not the last one if one follows it. -/
theorem getLast?_ne_of_nodup {xs ys : List NodeKey} {j y : NodeKey}
    (h : (xs ++ j :: y :: ys).Nodup) : (xs ++ j :: y :: ys).getLast? ≠ some j := by
  intro he
  have hmem : j ∈ y :: ys := List.mem_of_getLast? (by simpa using he)
  exact (List.nodup_cons.1 (List.nodup_append.1 h).2.1).1 hmem

/-! ## Joining -/

/-- `k` joins at the end of `l`. -/
structure Appended (i : CollectionId) (l : List NodeKey) (k : NodeKey) (g g' : Graph α) : Prop where
  place : ∀ j, g'.place? j = if j = k then some ⟨some i, none, l.getLast?⟩
    else if l.getLast? = some j then (g.place? j).map fun p => { p with next := some k }
    else g.place? j
  nextCollection : g'.nextCollection = g.nextCollection

theorem Holds.append {c : Collection β} {g g' : Graph α} {l : List NodeKey} {k : NodeKey}
    (h : c.Holds g l) (hk : g.place? k = some .free) (hg : Appended c.id l k g g') :
    Holds { c with head := (l ++ [k]).head?, tail := some k, size := l.length + 1 } g'
      (l ++ [k]) := by
  have hnew : k ∉ l := by
    intro hmem
    obtain ⟨p, hp, hc⟩ := (h.mem_iff k).1 hmem
    rw [hk] at hp
    cases hp
    cases hc
  constructor
  case nodup => exact List.nodup_append.2 ⟨h.nodup, by simp, by rintro a ha _ hb rfl; simp_all⟩
  case size => simp
  case head => rfl
  case tail => simp
  case cursor =>
    intro j hj
    exact List.mem_append_left _ (h.cursor hj)
  case place =>
    intro xs j ys hl
    rcases List.eq_nil_or_concat ys with rfl | ⟨ys, y, rfl⟩
    · -- the node that joined
      obtain ⟨rfl, hj⟩ := List.append_inj' hl rfl
      obtain rfl : k = j := by simpa using hj
      simp [hg.place k]
    · obtain ⟨rfl, hy⟩ : l = xs ++ j :: ys ∧ [k] = [y] := by
        refine List.append_inj' (?_ : _ = (xs ++ j :: ys) ++ [y]) rfl
        simpa using hl
      obtain rfl : k = y := by simpa using hy
      have hj : j ≠ k := fun hj => hnew (by simp [hj])
      have hp := h.place rfl
      rw [hg.place j, if_neg hj]
      cases ys with
      | nil => simp [hp]
      | cons y ys =>
        rw [if_neg (getLast?_ne_of_nodup h.nodup), hp]
        simp
  case only =>
    intro j p hp hc
    rw [hg.place j] at hp
    split at hp
    · next hj => simp [hj]
    · split at hp
      · next hl => exact List.mem_append_left _ (List.mem_of_getLast? hl)
      · exact List.mem_append_left _ (h.only hp hc)

/-- Nodes of other collections stay where they are. -/
theorem Appended.aside {c : Collection β} {g g' : Graph α} {l : List NodeKey} {k : NodeKey}
    (hg : Appended c.id l k g g') (h : c.Holds g l) (hk : g.place? k = some .free) :
    Aside c.id g g' := by
  refine ⟨fun j => ?_, hg.nextCollection⟩
  rw [hg.place j]
  split
  · next hj => exact Or.inr ⟨_, _, hj ▸ hk, rfl, Or.inl rfl, Or.inr rfl⟩
  · split
    · next hl =>
      obtain ⟨p, hp, hc⟩ := (h.mem_iff j).1 (List.mem_of_getLast? hl)
      exact Or.inr ⟨p, { p with next := some k }, hp, by rw [hp]; rfl, Or.inr hc, Or.inr hc⟩
    · exact Or.inl rfl

/-- The links that are set for a node that joins. -/
def linkLast (c : Collection β) (g : Graph α) (k : NodeKey) : Graph α :=
  let g := g.modifyNode k fun n =>
    { n with collection := some c.id, previous := c.tail, next := none }
  match c.tail with
  | none => g
  | some t => g.modifyNode t fun n => { n with next := some k }

/-- The last element is another node than one outside of the collection. -/
theorem Holds.tail_ne {c : Collection β} {g : Graph α} {l : List NodeKey} (h : c.Holds g l)
    {k : NodeKey} {n : Node α} (hn : g.node? k = some n) (hc : n.collection = none) {t : NodeKey}
    (ht : c.tail = some t) : t ≠ k := by
  rintro rfl
  obtain ⟨p, hp, hp'⟩ := (h.mem_iff t).1 (List.mem_of_getLast? (h.tail.symm.trans ht))
  rw [Graph.place?_eq hn] at hp
  cases hp
  simp [Node.place, hc] at hp'

theorem Holds.appended_linkLast {c : Collection β} {g : Graph α} {l : List NodeKey}
    (h : c.Holds g l) {k : NodeKey} {n : Node α} (hn : g.node? k = some n)
    (hc : n.collection = none) : Appended c.id l k g (c.linkLast g k) := by
  set g₁ := g.modifyNode k fun n =>
    { n with collection := some c.id, previous := c.tail, next := none } with hg₁
  have hplace : ∀ j, g₁.place? j =
      if j = k then some ⟨some c.id, none, l.getLast?⟩ else g.place? j := by
    intro j
    rw [hg₁, g.place?_modifyNode k j (u := fun _ => ⟨some c.id, none, c.tail⟩) fun _ => rfl]
    split
    · next hj => rw [hj, Graph.place?_eq hn, h.tail]; rfl
    · rfl
  cases ht : c.tail with
  | none =>
    have hlink : c.linkLast g k = g₁ := by rw [linkLast, ht, hg₁, ht]
    refine ⟨fun j => ?_, by rw [hlink]; rfl⟩
    rw [hlink, hplace j, ← h.tail, ht]
    simp
  | some t =>
    have hlink : c.linkLast g k = g₁.modifyNode t fun n => { n with next := some k } := by
      rw [linkLast, ht, hg₁, ht]
    refine ⟨fun j => ?_, by rw [hlink]; rfl⟩
    rw [hlink,
      Graph.place?_modifyNode g₁ t j (u := fun p => { p with next := some k }) fun _ => rfl,
      hplace j, h.tail.symm.trans ht]
    by_cases hj : j = t
    · subst hj
      simp [h.tail_ne hn hc ht]
    · simp [hj, Ne.symm hj]

/-- A node joins unless it is not there or belongs to a collection. -/
theorem add_cases {c : Collection β} {g : Graph α} {l : List NodeKey} (h : c.Holds g l)
    (k : NodeKey) :
    ((∀ n, g.node? k = some n → n.collection ≠ none) ∧ ∃ f, c.add g k = (.error f, c, g)) ∨
      ∃ n g', g.node? k = some n ∧ n.collection = none ∧ Appended c.id l k g g' ∧
        c.add g k = (.ok (), { c with
          head := (l ++ [k]).head?, tail := some k, size := l.length + 1 }, g') := by
  cases hn : g.node? k with
  | none => exact Or.inl ⟨nofun, .unknownNode k, by simp [add, hn]⟩
  | some n =>
    cases hc : n.collection with
    | some i =>
      refine Or.inl ⟨fun m hm => ?_, .alreadyMember k i, by simp [add, hn, hc]⟩
      rw [← Option.some.inj hm, hc]
      exact Option.some_ne_none i
    | none =>
      refine Or.inr ⟨n, c.linkLast g k, rfl, hc, h.appended_linkLast hn hc, ?_⟩
      cases ht : c.tail with
      | none =>
        obtain rfl := List.getLast?_eq_none_iff.1 (h.tail.symm.trans ht)
        simp [add, linkLast, hn, hc, ht, h.size]
      | some t =>
        have hmem : t ∈ l := List.mem_of_getLast? (h.tail.symm.trans ht)
        obtain ⟨m, hm⟩ := h.exists_node hmem
        have hhead : (l ++ [k]).head? = c.head := by
          rw [List.head?_append, ← h.head]
          cases hh : c.head with
          | none =>
            rw [h.head, List.head?_eq_none_iff] at hh
            simp [hh] at hmem
          | some a => rfl
        simp [add, linkLast, hn, hc, ht, h.tail_ne hn hc ht, hm, h.size, hhead]

/-! ## Leaving -/

/-- `k` leaves from between `xs` and `ys`. -/
structure Skipped (xs : List NodeKey) (k : NodeKey) (ys : List NodeKey) (g g' : Graph α) :
    Prop where
  place : ∀ j, g'.place? j = if j = k then some .free
    else if xs.getLast? = some j then (g.place? j).map fun p => { p with next := ys.head? }
    else if ys.head? = some j then (g.place? j).map fun p => { p with previous := xs.getLast? }
    else g.place? j
  nextCollection : g'.nextCollection = g.nextCollection

/-- What two lists make together, split at an element of one of them. -/
theorem append_eq_split {xs ys as bs : List NodeKey} {j : NodeKey} (h : xs ++ ys = as ++ j :: bs) :
    (∃ cs, as = xs ++ cs ∧ ys = cs ++ j :: bs) ∨ ∃ cs, xs = as ++ j :: cs ∧ bs = cs ++ ys := by
  rcases List.append_eq_append_iff.1 h with ⟨cs, rfl, rfl⟩ | ⟨_ | ⟨a, cs⟩, rfl, hcs⟩
  · exact Or.inl ⟨cs, rfl, rfl⟩
  · exact Or.inl ⟨[], by simp, by simpa using hcs.symm⟩
  · simp only [List.cons_append, List.cons.injEq] at hcs
    exact Or.inr ⟨cs, by rw [hcs.1], hcs.2⟩

section Skipping

variable {c : Collection β} {g g' : Graph α} {xs ys : List NodeKey} {k : NodeKey}

/-- The nodes that stay close ranks. -/
theorem Skipped.place_eq (hg : Skipped xs k ys g g') (h : c.Holds g (xs ++ k :: ys))
    {as bs : List NodeKey} {j : NodeKey} (hl : xs ++ ys = as ++ j :: bs) :
    g'.place? j = some ⟨some c.id, bs.head?, as.getLast?⟩ := by
  obtain ⟨hk, hnd⟩ := List.nodup_middle.1 h.nodup |> List.nodup_cons.1
  obtain ⟨hxs, hys, hxy⟩ := List.nodup_append.1 hnd
  have hjk : j ≠ k := by
    rintro rfl
    exact hk (by simp [hl])
  rw [hg.place j, if_neg hjk]
  rcases append_eq_split hl with ⟨cs, rfl, rfl⟩ | ⟨cs, rfl, rfl⟩
  · -- a node from behind the one that leaves
    have hp := h.place (show _ = (xs ++ k :: cs) ++ j :: bs by simp)
    have hjx : xs.getLast? ≠ some j := fun he => hxy j (List.mem_of_getLast? he) j (by simp) rfl
    rw [if_neg hjx, hp]
    cases cs with
    | nil => simp
    | cons a cs =>
      have : (a :: cs ++ j :: bs).head? ≠ some j := by
        rintro he
        obtain rfl : a = j := by simpa using he
        simp at hys
      rw [if_neg this]
      simp
  · -- a node from before it
    have hp := h.place (show _ = as ++ j :: (cs ++ k :: ys) by simp)
    have hjy : ys.head? ≠ some j := fun he => hxy j (by simp) j (List.mem_of_head? he) rfl
    rw [if_neg hjy, hp]
    cases cs with
    | nil => simp
    | cons a cs =>
      rw [if_neg (getLast?_ne_of_nodup hxs)]
      simp

theorem Holds.skip (h : c.Holds g (xs ++ k :: ys)) (hg : Skipped xs k ys g g') :
    Holds { c with
      head := (xs ++ ys).head?, tail := (xs ++ ys).getLast?, size := (xs ++ ys).length
      cursor := if c.cursor = some k then ys.head? else c.cursor } g' (xs ++ ys) := by
  constructor
  case nodup => exact (List.nodup_cons.1 (List.nodup_middle.1 h.nodup)).2
  case size => rfl
  case head => rfl
  case tail => rfl
  case cursor =>
    intro j hj
    dsimp only at hj
    split at hj
    · exact List.mem_append_right _ (List.mem_of_head? hj)
    · next hc =>
      have hj' := h.cursor hj
      have : j ≠ k := by
        rintro rfl
        exact hc hj
      simpa [this] using hj'
  case place => exact hg.place_eq h
  case only =>
    intro j p hp hc
    rw [hg.place j] at hp
    split at hp
    · cases hp
      cases hc
    · next hj =>
      have hj' : j ∈ xs ++ k :: ys := by
        split at hp
        · next hl => exact List.mem_append_left _ (List.mem_of_getLast? hl)
        · split at hp
          · next hl => exact List.mem_append_right _ (List.mem_cons_of_mem _ (List.mem_of_head? hl))
          · exact h.only hp hc
      simpa [hj] using hj'

/-- Nodes of other collections stay where they are. -/
theorem Skipped.aside (hg : Skipped xs k ys g g') (h : c.Holds g (xs ++ k :: ys)) :
    Aside c.id g g' := by
  refine ⟨fun j => ?_, hg.nextCollection⟩
  rw [hg.place j]
  have hnear : ∀ {u : Place → Place}, (∀ p, (u p).collection = p.collection) → j ∈ xs ++ k :: ys →
      ∃ p p', g.place? j = some p ∧ (g.place? j).map u = some p' ∧ p.Near c.id ∧ p'.Near c.id := by
    intro u hu hj
    obtain ⟨p, hp, hc⟩ := (h.mem_iff j).1 hj
    exact ⟨p, u p, hp, by rw [hp]; rfl, Or.inr hc, Or.inr ((hu p).trans hc)⟩
  split
  · next hj => exact Or.inr ⟨_, _, hj ▸ h.place rfl, rfl, Or.inr rfl, Or.inl rfl⟩
  · split
    · next hl =>
      exact Or.inr (hnear (fun _ => rfl) (List.mem_append_left _ (List.mem_of_getLast? hl)))
    · split
      · next hl =>
        exact Or.inr (hnear (fun _ => rfl)
          (List.mem_append_right _ (List.mem_cons_of_mem _ (List.mem_of_head? hl))))
      · exact Or.inl rfl

end Skipping

theorem skipForward_spec (c : Collection β) {g : Graph α} (previous next : Option NodeKey)
    (hp : ∀ j, previous = some j → ∃ m, g.node? j = some m) :
    ∃ g', SameFlow g g' ∧ g'.nextCollection = g.nextCollection ∧
      (∀ j, g'.place? j =
        if previous = some j then (g.place? j).map fun p => { p with next } else g.place? j) ∧
      c.skipForward g previous next =
        (.ok (), { c with head := if previous = none then next else c.head }, g') := by
  cases previous with
  | none => exact ⟨g, .refl g, rfl, fun j => rfl, rfl⟩
  | some p =>
    obtain ⟨m, hm⟩ := hp p rfl
    refine ⟨_, .modifyNode g p (f := fun n => { n with next }) fun _ => rfl, rfl, fun j => ?_,
      by simp [skipForward, hm]⟩
    rw [g.place?_modifyNode p j (u := fun p => { p with next }) fun _ => rfl]
    simp [eq_comm (a := j)]

theorem skipBackward_spec (c : Collection β) {g : Graph α} (previous next : Option NodeKey)
    (hn : ∀ j, next = some j → ∃ m, g.node? j = some m) :
    ∃ g', SameFlow g g' ∧ g'.nextCollection = g.nextCollection ∧
      (∀ j, g'.place? j =
        if next = some j then (g.place? j).map fun p => { p with previous } else g.place? j) ∧
      c.skipBackward g previous next =
        (.ok (), { c with tail := if next = none then previous else c.tail }, g') := by
  cases next with
  | none => exact ⟨g, .refl g, rfl, fun j => rfl, rfl⟩
  | some p =>
    obtain ⟨m, hm⟩ := hn p rfl
    refine ⟨_, .modifyNode g p (f := fun n => { n with previous }) fun _ => rfl, rfl, fun j => ?_,
      by simp [skipBackward, hm]⟩
    rw [g.place?_modifyNode p j (u := fun p => { p with previous }) fun _ => rfl]
    simp [eq_comm (a := j)]

/-- The neighbours of a node that leaves are linked to each other. -/
theorem Holds.skip_spec {c : Collection β} {g : Graph α} {xs ys : List NodeKey} {k : NodeKey}
    (h : c.Holds g (xs ++ k :: ys)) :
    ∃ g₁ g₂, c.skipForward g xs.getLast? ys.head? =
        (.ok (), { c with head := (xs ++ ys).head? }, g₁) ∧
      skipBackward { c with head := (xs ++ ys).head? } g₁ xs.getLast? ys.head? =
        (.ok (), { c with head := (xs ++ ys).head?, tail := (xs ++ ys).getLast? }, g₂) ∧
      SameFlow g g₂ ∧ Skipped xs k ys g (g₂.modifyNode k Node.alone) := by
  have hlast : ∀ j, xs.getLast? = some j → ∃ m, g.node? j = some m := fun j hj =>
    h.exists_node (List.mem_append_left _ (List.mem_of_getLast? hj))
  obtain ⟨g₁, hs₁, hc₁, hp₁, he₁⟩ := c.skipForward_spec xs.getLast? ys.head? hlast
  have hfirst : ∀ j, ys.head? = some j → ∃ m, g₁.node? j = some m := by
    intro j hj
    obtain ⟨m, hm⟩ := h.exists_node
      (List.mem_append_right _ (List.mem_cons_of_mem _ (List.mem_of_head? hj)))
    obtain ⟨m', hm', -⟩ := hs₁.symm.exists_node hm
    exact ⟨m', hm'⟩
  obtain ⟨g₂, hs₂, hc₂, hp₂, he₂⟩ :=
    skipBackward_spec { c with head := (xs ++ ys).head? } xs.getLast? ys.head? hfirst
  have hhead : (if xs.getLast? = none then ys.head? else c.head) = (xs ++ ys).head? := by
    rw [h.head]
    cases xs <;> simp
  have htail : (if ys.head? = none then xs.getLast? else c.tail) = (xs ++ ys).getLast? := by
    rw [h.tail]
    cases ys <;> simp
  refine ⟨g₁, g₂, by rw [he₁, hhead], by rw [he₂, htail], hs₁.trans hs₂, fun j => ?_, hc₂.trans hc₁⟩
  -- the place of every node is changed once at most
  obtain ⟨-, hnd⟩ := List.nodup_middle.1 h.nodup |> List.nodup_cons.1
  have hxy : xs.getLast? = some j → ys.head? ≠ some j := fun hx hy =>
    (List.nodup_append.1 hnd).2.2 j (List.mem_of_getLast? hx) j (List.mem_of_head? hy) rfl
  rw [g₂.place?_modifyNode k j (u := fun _ => .free) fun _ => rfl]
  by_cases hjk : j = k
  · obtain ⟨n, hn⟩ :=
      h.exists_node (List.mem_append_right xs (List.mem_cons_self (a := k) (l := ys)))
    obtain ⟨m, hm, -⟩ := (hs₁.trans hs₂).symm.exists_node hn
    rw [if_pos hjk, if_pos hjk, hjk, Graph.place?_eq hm]
    rfl
  · rw [if_neg hjk, if_neg hjk, hp₂, hp₁]
    by_cases hx : xs.getLast? = some j
    · rw [if_pos hx, if_pos hx, if_neg (hxy hx)]
    · rw [if_neg hx, if_neg hx]

theorem Skipped.samePlaces {xs ys : List NodeKey} {k : NodeKey} {g g' g'' : Graph α}
    (h : Skipped xs k ys g g') (hg : SamePlaces g' g'') : Skipped xs k ys g g'' where
  place j := (hg.place? j).trans (h.place j)
  nextCollection := hg.nextCollection.trans h.nextCollection

/-- Members, and only they, leave; a member takes the units of its edges along. -/
theorem remove_spec {c : Collection β} {g : Graph α} {l : List NodeKey} (hs : g.Sound)
    (h : c.Holds g l) (k : NodeKey) :
    (k ∉ l ∧ ∃ f, c.remove g k = (.error f, c, g)) ∨
      ∃ xs ys n g', l = xs ++ k :: ys ∧ g.node? k = some n ∧ Skipped xs k ys g g' ∧
        c.remove g k = (.ok n.flow, { c with
          head := (xs ++ ys).head?, tail := (xs ++ ys).getLast?, size := (xs ++ ys).length
          cursor := if c.cursor = some k then ys.head? else c.cursor }, g') := by
  by_cases hk : k ∈ l
  case neg =>
    refine Or.inl ⟨hk, ?_⟩
    cases hn : g.node? k with
    | none => exact ⟨.unknownNode k, by simp [remove, hn]⟩
    | some n =>
      have hc : n.collection ≠ some c.id := fun hc => hk (h.only (Graph.place?_eq hn) hc)
      exact ⟨.notMember k c.id, by simp [remove, hn, hc]⟩
  case pos =>
    obtain ⟨xs, ys, rfl⟩ := List.append_of_mem hk
    obtain ⟨n, hn, hplace⟩ := Graph.exists_node_of_place? (h.place rfl)
    injection hplace with hc hnext hprevious
    obtain ⟨g₁, g₂, hforward, hbackward, hsame, hskipped⟩ := h.skip_spec
    have hsame := hsame.trans (.modifyNode g₂ k (f := Node.alone) fun _ => rfl)
    obtain ⟨m, hm, ha⟩ := hsame.symm.exists_node hn
    injection ha with _ _ _ hflow
    have hu : (g₂.modifyNode k fun n => { n with
        collection := none, previous := none, next := none }).unlink k = _ :=
      Graph.unlink_eq (hs.congr hsame) hm
    refine Or.inr ⟨xs, ys, n, _, rfl, hn, hskipped.samePlaces (.foldl_dropEdge _ m.edges), ?_⟩
    have hsize : c.size - 1 = (xs ++ ys).length := by simp [h.size]
    simp only [remove, hn, hc, hnext, hprevious, ne_eq, not_true_eq_false, if_false, hforward,
      hbackward]
    rw [hu, ← hflow, ← hsize]
    by_cases hcur : c.cursor = some k
    · rw [if_pos hcur, if_pos hcur]
    · rw [if_neg hcur, if_neg hcur]

/-! ## Streaming -/

theorem startOf_mem {c : Collection β} {g : Graph α} {l : List NodeKey} (h : c.Holds g l)
    {head : NodeKey} (hh : head ∈ l) : c.startOf g head ∈ l := by
  unfold startOf
  split
  · next k hk =>
    split
    · exact h.cursor hk
    · exact hh
  · exact hh

/-- Going round a list stays on it. -/
theorem following_mem {c : Collection β} {g : Graph α} {l : List NodeKey} (h : c.Holds g l)
    {head k : NodeKey} (hh : head ∈ l) (hk : k ∈ l) : following g head k ∈ l := by
  obtain ⟨xs, ys, rfl⟩ := List.append_of_mem hk
  rw [following, (h.links rfl).1]
  cases ys with
  | nil => exact hh
  | cons y ys => simp

/-- A step of a stream keeps the list of every collection; its own cursor stays on
    the list. -/
theorem next_spec {c : Collection β} {g : Graph α} {l : List NodeKey} (h : c.Holds g l) :
    SamePlaces g (c.next g).2.2 ∧ (c.next g).2.1.id = c.id ∧
      (c.next g).2.1.Holds (c.next g).2.2 l := by
  rcases c.next_cases g with hn | ⟨head, edge, behind, e, -, hhead, hseek, -, -, hn⟩ <;> rw [hn]
  · exact ⟨.refl g, rfl, h⟩
  · have hs := SamePlaces.unitAlong g edge e
    have hh : head ∈ l := List.mem_of_head? (h.head.symm.trans hhead)
    obtain ⟨k, hk, -, rfl⟩ := seek_spec (P := (· ∈ l)) (fun k => following_mem h hh) _
      (startOf_mem h hh) hseek
    refine ⟨hs, rfl, ?_⟩
    have hl := h.samePlaces hs
    exact ⟨hl.nodup, hl.size, hl.head, hl.tail,
      fun hj => Option.some.inj hj ▸ following_mem h hh hk, hl.place, hl.only⟩

/-! ## Reading the list off -/

/-- Following the links from `start` meets exactly the nodes of a list and ends. -/
inductive Thread (g : Graph α) : (start : Option NodeKey) → List NodeKey → Prop where
  | nil : Thread g none []
  | cons {k : NodeKey} {l : List NodeKey} (rest : Thread g ((g.node? k).bind Node.next) l) :
    Thread g (some k) (k :: l)

/-- Walking along a thread gives its nodes, if there is fuel for all of them. -/
theorem Thread.walk_eq {g : Graph α} {start : Option NodeKey} {l : List NodeKey}
    (h : Thread g start l) {fuel : Nat} (hf : l.length ≤ fuel) : g.walk fuel start = l := by
  induction h generalizing fuel with
  | nil => cases fuel <;> rfl
  | @cons k l _ ih =>
    cases fuel with
    | zero => simp at hf
    | succ fuel => rw [Graph.walk, ih (Nat.le_of_succ_le_succ hf)]

theorem Holds.thread {c : Collection β} {g : Graph α} {l : List NodeKey} (h : c.Holds g l) :
    Thread g c.head l := by
  have hsuffix : ∀ ys xs, l = xs ++ ys → Thread g ys.head? ys := by
    intro ys
    induction ys with
    | nil => exact fun _ _ => .nil
    | cons k ys ih =>
      intro xs hl
      refine .cons ?_
      rw [(h.links hl).1]
      exact ih (xs ++ [k]) (by simp [hl])
  rw [h.head]
  exact hsuffix l [] rfl

theorem Holds.length_le {c : Collection β} {g : Graph α} {l : List NodeKey} (h : c.Holds g l) :
    l.length ≤ g.nodes.length := by
  have hsub : l ⊆ List.range g.nodes.length := by
    intro k hk
    obtain ⟨n, hn⟩ := h.exists_node hk
    exact List.mem_range.2 (Graph.node?_eq_some_lt hn)
  simpa using (List.subperm_of_subset h.nodup hsub).length_le

theorem Holds.members_eq {c : Collection β} {g : Graph α} {l : List NodeKey} (h : c.Holds g l) :
    c.members g = l := h.thread.walk_eq h.length_le

theorem Holds.contains_iff {c : Collection β} {g : Graph α} {l : List NodeKey} (h : c.Holds g l)
    (k : NodeKey) : c.contains g k = true ↔ k ∈ l := by
  rw [h.mem_iff]
  unfold contains Graph.place?
  cases g.node? k <;> simp [Node.place]

theorem Holds.isEmpty_eq {c : Collection β} {g : Graph α} {l : List NodeKey} (h : c.Holds g l) :
    c.isEmpty = l.isEmpty := by
  rw [isEmpty, h.size]
  cases l <;> rfl

end Collection
end Matchbook.Flow
