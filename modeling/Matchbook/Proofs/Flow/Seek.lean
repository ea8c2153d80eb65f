/-
  The search of a stream for an open edge.

  * `Seeks` goes round the members until one has an open edge or the first comes again,
    however long this takes; `Seeks.seek_eq`: the search with fuel for all that is visited
    finds the same;
  * `Collection.Spells`: the collection is a list of nodes, wherever its cursor is, as every
    one that can be reached is (`run_spells`);
  * `Spells.seeks`: the search ends, and visits no member twice;
  * `Spells.next_cases`: a step pushes a unit along an open edge of a member, or it does
    nothing because the cap is reached or no member has one.
-/
import Matchbook.Proofs.Flow.Round

namespace Matchbook.Flow

variable {α β : Type}

namespace Collection

/-! ## Going round without a bound -/

/-- The search for an open edge from `current` on, which ends when `start` comes again:
    the nodes that it visits, in turn, and the edge and the member behind that it finds. -/
inductive Seeks (g : Graph α) (head start : NodeKey) :
    (current : NodeKey) → (visited : List NodeKey) → (found : Option (EdgeKey × NodeKey)) → Prop
  | found {k : NodeKey} {edge : EdgeKey} : openEdge g k = some edge →
    Seeks g head start k [k] (some (edge, following g head k))
  | round {k : NodeKey} : openEdge g k = none → following g head k = start →
    Seeks g head start k [k] none
  | onward {k : NodeKey} {visited : List NodeKey} {found : Option (EdgeKey × NodeKey)} :
    openEdge g k = none → following g head k ≠ start →
      Seeks g head start (following g head k) visited found →
        Seeks g head start k (k :: visited) found

namespace Seeks

variable {g : Graph α} {head start current : NodeKey} {visited : List NodeKey}
  {found : Option (EdgeKey × NodeKey)}

/-- Fuel for all nodes that are visited does not interrupt the search. -/
theorem seek_eq (h : Seeks g head start current visited found) :
    ∀ {fuel : Nat}, visited.length ≤ fuel → seek g head start fuel current = found := by
  induction h with
  | found hopen =>
    intro fuel hfuel
    obtain ⟨fuel, rfl⟩ := Nat.exists_eq_add_of_le' (show 1 ≤ fuel from hfuel)
    simp only [seek, hopen]
  | round hclosed hround =>
    intro fuel hfuel
    obtain ⟨fuel, rfl⟩ := Nat.exists_eq_add_of_le' (show 1 ≤ fuel from hfuel)
    simp only [seek, hclosed, if_pos hround]
  | onward hclosed hne _ ih =>
    intro fuel hfuel
    rw [List.length_cons] at hfuel
    obtain ⟨fuel, rfl⟩ := Nat.exists_eq_add_of_le' (show 1 ≤ fuel by omega)
    simp only [seek, hclosed, if_neg hne]
    exact ih (by omega)

/-- What is found is an open edge of a node that is visited; nothing is found where none of
    these has one. -/
theorem found_spec (h : Seeks g head start current visited found) :
    (found = none ∧ ∀ k ∈ visited, openEdge g k = none) ∨
      ∃ k ∈ visited, ∃ edge, openEdge g k = some edge ∧
        found = some (edge, following g head k) := by
  induction h with
  | @found k edge hopen => exact Or.inr ⟨k, List.mem_cons_self, edge, hopen, rfl⟩
  | round hclosed _ => exact Or.inl ⟨rfl, by simpa using hclosed⟩
  | onward hclosed _ _ ih =>
    rcases ih with ⟨hnone, hall⟩ | ⟨k, hk, hfound⟩
    · exact Or.inl ⟨hnone, List.forall_mem_cons.2 ⟨hclosed, hall⟩⟩
    · exact Or.inr ⟨k, List.mem_cons_of_mem _ hk, hfound⟩

end Seeks

/-- A search that begins with the first of a cycle goes round it, at most once: it visits
    a part of it from the first on, and all of it if nothing is found. -/
theorem exists_seeks {g : Graph α} {head start : NodeKey} {cycle : List NodeKey}
    (hnodup : cycle.Nodup) (hstart : cycle.head? = some start)
    (hfollow : ∀ {xs k ys}, cycle = xs ++ k :: ys →
      some (following g head k) = (ys ++ (xs ++ [k])).head?) :
    ∀ {todo passed : List NodeKey} {current : NodeKey}, cycle = passed ++ current :: todo →
      ∃ visited found, Seeks g head start current visited found ∧
        visited <+: current :: todo ∧ (found = none → visited = current :: todo)
  | todo, passed, current, hc => by
    cases hopen : openEdge g current with
    | some edge => exact ⟨_, _, .found hopen, ⟨todo, rfl⟩, nofun⟩
    | none =>
      rcases following_cases hnodup hstart hfollow hc with ⟨rfl, hround⟩ | ⟨b, rest, rfl, rfl, hne⟩
      · exact ⟨_, _, .round hopen hround, List.prefix_rfl, fun _ => rfl⟩
      · obtain ⟨visited, found, hseeks, hpart, hall⟩ :=
          exists_seeks hnodup hstart hfollow (hc.trans (List.append_cons ..))
        refine ⟨_, found, .onward hopen hne hseeks, (List.prefix_cons_inj current).2 hpart, ?_⟩
        exact fun hnone => by rw [hall hnone]

/-! ## Wherever the cursor is -/

/-- The collection is the list `l`, wherever its cursor is. -/
def Spells (c : Collection β) (g : Graph α) (l : List NodeKey) : Prop :=
  Holds { c with cursor := none } g l

theorem Holds.spells {c : Collection β} {g : Graph α} {l : List NodeKey} (h : c.Holds g l)
    (cursor : Option NodeKey) : Spells { c with cursor } g l :=
  { h with cursor := nofun }

namespace Spells

variable {c : Collection β} {g : Graph α} {l : List NodeKey} {head start : NodeKey}

theorem flow_eq (h : c.Spells g l) : c.flow g = g.load l :=
  Holds.flow_eq (c := { c with cursor := none }) h

theorem members_eq (h : c.Spells g l) : c.members g = l :=
  Holds.members_eq (c := { c with cursor := none }) h

theorem head_mem (h : c.Spells g l) (hh : c.head = some head) : head ∈ l :=
  List.mem_of_head? (h.head.symm.trans hh)

/-- A step begins with a member, also if the cursor is on no member. -/
theorem startOf_mem (h : c.Spells g l) (hh : c.head = some head) : c.startOf g head ∈ l := by
  unfold startOf
  split
  · split
    · next hk => exact (Holds.contains_iff (c := { c with cursor := none }) h _).1 hk
    · exact h.head_mem hh
  · exact h.head_mem hh

/-- The search from any member ends and visits no member twice, and all of them if it finds
    nothing; one with fuel for as many nodes as the graph has finds the same. -/
theorem seeks (h : c.Spells g l) (hh : c.head = some head) (hstart : start ∈ l) :
    ∃ visited found, Seeks g head start start visited found ∧ visited.Nodup ∧ visited ⊆ l ∧
      (found = none → visited.Perm l) ∧ seek g head start g.nodes.length start = found := by
  obtain ⟨xs, ys, hl⟩ := List.append_of_mem hstart
  have hrotated : l ~r start :: (ys ++ xs) := by
    rw [hl]
    exact List.isRotated_append
  have hturned := Turned.move h hrotated
  have hnodup : (start :: (ys ++ xs)).Nodup := hrotated.nodup_iff.1 h.nodup
  obtain ⟨visited, found, hseeks, hpart, hall⟩ :=
    exists_seeks hnodup rfl (hturned.following_eq hh) (List.nil_append _).symm
  have hvisited : visited ⊆ l := fun k hk => hrotated.mem_iff.2 (hpart.subset hk)
  refine ⟨visited, found, hseeks, hnodup.sublist hpart.sublist, hvisited,
    fun hnone => hall hnone ▸ hrotated.perm.symm, hseeks.seek_eq ?_⟩
  calc visited.length ≤ (start :: (ys ++ xs)).length := hpart.length_le
    _ = l.length := hrotated.perm.length_eq.symm
    _ ≤ g.nodes.length := Holds.length_le h

/-- The list stays spelled when the cursor moves and units pass. -/
theorem unitAlong (h : c.Spells g l) (cursor : Option NodeKey) (k : EdgeKey) (e : Edge) :
    Spells { c with cursor } (g.unitAlong k e) l :=
  Holds.samePlaces h (.unitAlong g k e)

/-- **A step** does nothing, as the cap is reached or no member has an open edge, or it
    pushes a unit along an open edge of a member. -/
theorem next_cases (h : c.Spells g l) :
    (c.next g = (none, c, g) ∧ (c.maxFlow ≤ g.load l ∨ ∀ m ∈ l, openEdge g m = none)) ∨
      ∃ m ∈ l, ∃ edge e behind, openEdge g m = some edge ∧ g.edge? edge = some e ∧
        g.canPush edge = true ∧ g.load l < c.maxFlow ∧
          c.next g = (some ⟨edge, 1, g.load l + 1⟩, { c with cursor := some behind },
            g.unitAlong edge e) := by
  unfold next
  rw [h.flow_eq]
  by_cases hcap : c.maxFlow ≤ g.load l
  · exact Or.inl ⟨if_pos hcap, Or.inl hcap⟩
  simp only [if_neg hcap]
  cases hh : c.head with
  | none =>
    have hl : l = [] := List.head?_eq_none_iff.1 (h.head.symm.trans hh)
    exact Or.inl ⟨rfl, Or.inr (hl ▸ List.forall_mem_nil _)⟩
  | some head =>
    obtain ⟨visited, found, hseeks, -, hvisited, hall, hseek⟩ := h.seeks hh (h.startOf_mem hh)
    dsimp only
    rw [hseek]
    rcases hseeks.found_spec with ⟨rfl, hclosed⟩ | ⟨m, hm, edge, hopen, rfl⟩
    · exact Or.inl ⟨rfl, Or.inr fun m hm => hclosed m ((hall rfl).mem_iff.2 hm)⟩
    · have hpush := (openEdge_eq_some hopen).2.2
      obtain ⟨e, he, -, hunit⟩ := (g.pushUnit_eq edge).resolve_right fun hn => by
        simp [hpush] at hn
      refine Or.inr ⟨m, hvisited hm, edge, e, following g head m, hopen, he, hpush,
        Nat.lt_of_not_le hcap, ?_⟩
      dsimp only
      rw [hunit]

end Spells
end Collection

/-- Every collection of a network that can be reached is a list, wherever its cursor is. -/
theorem Network.run_spells (actions : List (Action α β)) {i : CollectionId} {c : Collection β}
    (hc : (run actions).collections[i]? = some c) (cursor : Option NodeKey) :
    ∃ l, Collection.Spells { c with cursor } (run actions).graph l := by
  obtain ⟨l, hl⟩ := (run_holds actions).exists_list hc
  exact ⟨l, ((run_holds actions).holds hc hl).spells cursor⟩

end Matchbook.Flow
