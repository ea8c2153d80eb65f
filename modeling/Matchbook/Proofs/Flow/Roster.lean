/-
  The lists of all collections of a network, over whole runs.

  * `Action.enroll` is what an action means for the lists of the collections:
    joining appends a node, leaving erases it, and nothing else counts;
    `Network.rosters` are the lists behind a run;
  * `Network.Lists`: the collections of a network hold these lists, and no node
    belongs to anything else; `step_lists` keeps it;
  * `run_lists`: what a collection tells about itself is what its list says.
-/
import Matchbook.Proofs.Flow.Balance
import Matchbook.Proofs.Flow.Membership

namespace Matchbook.Flow

variable {α β : Type}

/-! ## What the lists should be -/

/-- What an action with this answer makes of the lists of the collections. -/
def Action.enroll (a : Action α β) (answer : Answer) (ls : List (List NodeKey)) :
    List (List NodeKey) :=
  match a, answer with
  | .collect _ _, _ => ls ++ [[]]
  | .add i k, .done => ls.modify i (· ++ [k])
  | .remove i k, .done => ls.modify i (·.erase k)
  | _, _ => ls

namespace Network

/-- The lists behind some actions. -/
def enrolled (w : Network α β) (ls : List (List NodeKey)) : List (Action α β) → List (List NodeKey)
  | [] => ls
  | a :: actions => enrolled (w.step a).2 (a.enroll (w.step a).1 ls) actions

/-- The lists behind a run. -/
def rosters (actions : List (Action α β)) : List (List NodeKey) := empty.enrolled [] actions

theorem enrolled_append (w : Network α β) (ls : List (List NodeKey)) (as bs : List (Action α β)) :
    w.enrolled ls (as ++ bs) = (w.after as).enrolled (w.enrolled ls as) bs := by
  induction as generalizing w ls with
  | nil => rfl
  | cons a as ih => exact ih _ _

theorem erase_middle {xs ys : List NodeKey} {k : NodeKey} (h : (xs ++ k :: ys).Nodup) :
    (xs ++ k :: ys).erase k = xs ++ ys := by
  have hk : k ∉ xs := fun hk => (List.nodup_append.1 h).2.2 k hk k List.mem_cons_self rfl
  rw [List.erase_append_right _ hk, List.erase_cons_head]

/-- Where a node leaves one of some lists, every list is a part of what it was. -/
theorem sublist_of_modify_erase {ls : List (List NodeKey)} {i j : CollectionId} {k : NodeKey}
    {l' : List NodeKey} (h : (ls.modify i (·.erase k))[j]? = some l') :
    ∃ l, ls[j]? = some l ∧ l'.Sublist l := by
  rw [List.getElem?_modify] at h
  obtain ⟨l, hl, rfl⟩ := Option.map_eq_some_iff.1 h
  refine ⟨l, hl, ?_⟩
  split
  · exact List.erase_sublist
  · exact .refl l

/-! ## The collections hold the lists -/

/-- The collections hold the lists, each the one of its key, and the nodes know of
    no others. -/
structure Lists (w : Network α β) (ls : List (List NodeKey)) : Prop where
  length : ls.length = w.collections.length
  nextCollection : w.graph.nextCollection = w.collections.length
  id_eq : ∀ {i : CollectionId} {c : Collection β}, w.collections[i]? = some c → c.id = i
  holds : ∀ {i : CollectionId} {c : Collection β} {l : List NodeKey},
    w.collections[i]? = some c → ls[i]? = some l → c.Holds w.graph l
  tidy : w.graph.Tidy
  known : ∀ {k p i}, w.graph.place? k = some p → p.collection = some i → i < w.collections.length

namespace Lists

variable {w : Network α β} {ls : List (List NodeKey)} {g : Graph α}

theorem empty : (empty : Network α β).Lists [] where
  length := rfl
  nextCollection := rfl
  id_eq h := by cases h
  holds h := by cases h
  tidy k p h := by simp [Network.empty, Graph.empty, Graph.place?, Graph.node?] at h
  known h := by simp [Network.empty, Graph.empty, Graph.place?, Graph.node?] at h

/-- Every collection has its list. -/
theorem exists_list (h : w.Lists ls) {i : CollectionId} {c : Collection β}
    (hc : w.collections[i]? = some c) : ∃ l, ls[i]? = some l := by
  have hi := (List.getElem?_eq_some_iff.1 hc).1
  exact ⟨_, List.getElem?_eq_getElem (h.length ▸ hi)⟩

/-- An operation on the graph that keeps the places keeps the lists. -/
theorem samePlaces (h : w.Lists ls) (hg : SamePlaces w.graph g) :
    Lists { w with graph := g } ls where
  length := h.length
  nextCollection := hg.nextCollection.trans h.nextCollection
  id_eq := h.id_eq
  holds hc hl := (h.holds hc hl).samePlaces hg
  tidy := (Aside.of_samePlaces 0 hg).tidy h.tidy
  known hp := h.known (hg.place? _ ▸ hp)

/-- An operation on one collection keeps the lists of the others. -/
theorem set (h : w.Lists ls) {i : CollectionId} {c c' : Collection β} {l : List NodeKey}
    (hc : w.collections[i]? = some c) (hl : ls[i]? = some l) (f : List NodeKey → List NodeKey)
    (hc' : c'.Holds g (f l)) (hid : c'.id = c.id) (hg : Aside c.id w.graph g) :
    Lists ⟨g, w.collections.set i c'⟩ (ls.modify i f) where
  length := by simp [h.length]
  nextCollection := by simp [hg.nextCollection, h.nextCollection]
  id_eq {j d} hd := by
    rw [List.getElem?_set] at hd
    split at hd
    · next hij =>
      split at hd
      · cases hd
        exact (hid.trans (h.id_eq hc)).trans hij
      · cases hd
    · exact h.id_eq hd
  holds {j d m} hd hm := by
    rw [List.getElem?_set] at hd
    rw [List.getElem?_modify] at hm
    split at hd
    · next hij =>
      split at hd
      · cases hd
        simp only [← hij, hl, if_true, Option.map_eq_map, Option.map_some] at hm
        cases hm
        exact hc'
      · cases hd
    · next hij =>
      refine (h.holds hd (by simpa [hij] using hm)).aside ?_ hg
      rw [h.id_eq hd, h.id_eq hc]
      exact Ne.symm hij
  tidy := hg.tidy h.tidy
  known {k p j} hp hj := by
    rw [List.length_set]
    rcases hg.place k with hk | ⟨-, p', -, hp', -, rfl | hn⟩
    · exact h.known (hk ▸ hp) hj
    · rw [hp'] at hp
      cases hp
      cases hj
    · rw [hp'] at hp
      cases hp
      rw [hj] at hn
      cases hn
      rw [h.id_eq hc]
      exact (List.getElem?_eq_some_iff.1 hc).1

theorem addNode (h : w.Lists ls) (data : α) (capacity : Nat) (isSink : Bool) :
    Lists { w with graph := w.graph.addNode data capacity isSink } ls := by
  have hplace : ∀ {k p}, (w.graph.addNode data capacity isSink).place? k = some p →
      w.graph.place? k = some p ∨ p = .free := by
    intro k p hp
    rw [Graph.place?, Graph.node?_addNode] at hp
    split at hp
    · cases hp
      exact Or.inr rfl
    · exact Or.inl hp
  have hold : ∀ {k p}, w.graph.place? k = some p →
      (w.graph.addNode data capacity isSink).place? k = some p := by
    intro k p hp
    rw [Graph.place?, Graph.node?_addNode, if_neg, ← Graph.place?, hp]
    rintro rfl
    rw [Graph.place?, Graph.node?_nextNode] at hp
    cases hp
  constructor
  case length => exact h.length
  case nextCollection => exact h.nextCollection
  case id_eq => exact h.id_eq
  case holds =>
    intro i c l hc hl
    refine (h.holds hc hl).congr fun k p hp => ⟨fun hk => ?_, hold⟩
    rcases hplace hk with hk | rfl
    · exact hk
    · cases hp
  case tidy =>
    intro k p hk hp
    rcases hplace hk with hk | rfl
    · exact h.tidy k p hk hp
    · rfl
  case known =>
    intro k p i hk hp
    rcases hplace hk with hk | rfl
    · exact h.known hk hp
    · cases hp

theorem collect (h : w.Lists ls) (data : β) (maxFlow : Nat) :
    Lists ⟨(w.graph.newCollection data maxFlow).2,
      w.collections ++ [(w.graph.newCollection data maxFlow).1]⟩ (ls ++ [[]]) := by
  have hnew : ∀ {i : Nat} {d : Collection β},
      (w.collections ++ [(w.graph.newCollection data maxFlow).1])[i]? = some d →
      w.collections[i]? = some d ∨
        i = w.collections.length ∧ d = (w.graph.newCollection data maxFlow).1 := by
    intro i d hd
    rw [List.getElem?_append] at hd
    split at hd
    · exact Or.inl hd
    · next hi =>
      obtain ⟨hi', rfl⟩ := List.getElem?_eq_some_iff.1 hd
      simp only [List.length_singleton] at hi'
      refine Or.inr ⟨by omega, ?_⟩
      simp
  constructor
  case length => simp [h.length]
  case nextCollection => simp [Graph.newCollection, h.nextCollection]
  case id_eq =>
    intro i d hd
    rcases hnew hd with hd | ⟨rfl, rfl⟩
    · exact h.id_eq hd
    · exact h.nextCollection
  case holds =>
    intro i d l hd hl
    rcases hnew hd with hd | ⟨rfl, rfl⟩
    · have hi := (List.getElem?_eq_some_iff.1 hd).1
      rw [List.getElem?_append_left (h.length ▸ hi)] at hl
      exact (h.holds hd hl).congr fun _ _ _ => Iff.rfl
    · rw [← h.length, List.getElem?_concat_length] at hl
      cases hl
      -- no node has the key of a collection that was not there
      refine ⟨List.nodup_nil, rfl, rfl, rfl, nofun, fun hl => by simp at hl, ?_⟩
      intro k p hk hp
      have := h.known hk hp
      simp [Graph.newCollection, h.nextCollection] at this
  case tidy => exact h.tidy
  case known =>
    intro k p i hk hp
    have := h.known hk hp
    rw [List.length_append]
    exact Nat.lt_succ_of_lt this

/-- An operation on one collection that moves no node. -/
theorem keep (h : w.Lists ls) {i : CollectionId} {c c' : Collection β} {l : List NodeKey}
    (hc : w.collections[i]? = some c) (hl : ls[i]? = some l) (hc' : c'.Holds g l)
    (hid : c'.id = c.id) (hg : SamePlaces w.graph g) : Lists ⟨g, w.collections.set i c'⟩ ls := by
  have := h.set hc hl id hc' hid (.of_samePlaces c.id hg)
  rwa [List.modify_id] at this

/-- A free node joins at the end of a list. -/
theorem append (h : w.Lists ls) {i : CollectionId} {c : Collection β} {l : List NodeKey}
    (hc : w.collections[i]? = some c) (hl : ls[i]? = some l) {k : NodeKey}
    (hk : w.graph.place? k = some .free) :
    ∃ c' g, c.add w.graph k = (.ok (), c', g) ∧ c'.data = c.data ∧ c'.maxFlow = c.maxFlow ∧
      Lists ⟨g, w.collections.set i c'⟩ (ls.modify i (· ++ [k])) := by
  have hc' := h.holds hc hl
  rcases Collection.add_cases hc' k with ⟨hk', -⟩ | ⟨n, g, hn, -, ha, hr⟩
  · obtain ⟨n, hn, hp⟩ := Graph.exists_node_of_place? hk
    injection hp with hp
    exact absurd hp (hk' n hn)
  · exact ⟨_, g, hr, rfl, rfl, h.set hc hl (· ++ [k]) (hc'.append hk ha) rfl (ha.aside hc' hk)⟩

theorem add (h : w.Lists ls) (i : CollectionId) (k : NodeKey) :
    (w.step (.add i k)).2.Lists
      ((Action.add i k : Action α β).enroll (w.step (.add i k)).1 ls) := by
  rcases w.onCollection_cases i fun c g => ((c.add g k).1 |> .of, (c.add g k).2) with
    ⟨-, he⟩ | ⟨c, hc, he⟩ <;> rw [step, he]
  · exact h
  · obtain ⟨l, hl⟩ := h.exists_list hc
    have hc' := h.holds hc hl
    rcases Collection.add_cases hc' k with ⟨-, f, hr⟩ | ⟨n, -, hn, hfree, -, -⟩
    · rw [hr]
      exact h.keep hc hl hc' rfl (.refl _)
    · have hk := Graph.place?_eq hn
      rw [h.tidy k _ hk hfree] at hk
      obtain ⟨c', g, hr, -, -, hw⟩ := h.append hc hl hk
      rw [hr]
      exact hw

theorem remove (h : w.Lists ls) (hs : w.graph.Sound) (i : CollectionId) (k : NodeKey) :
    (w.step (.remove i k)).2.Lists
      ((Action.remove i k : Action α β).enroll (w.step (.remove i k)).1 ls) := by
  rcases w.onCollection_cases i fun c g => ((c.remove g k).1 |> .of, (c.remove g k).2) with
    ⟨-, he⟩ | ⟨c, hc, he⟩ <;> rw [step, he]
  · exact h
  · obtain ⟨l, hl⟩ := h.exists_list hc
    have hc' := h.holds hc hl
    rcases Collection.remove_spec hs hc' k with
      ⟨-, f, hr⟩ | ⟨xs, ys, n, g, rfl, hn, hk, hr⟩ <;> rw [hr]
    · exact h.keep hc hl hc' rfl (.refl _)
    · refine h.set hc hl (·.erase k) ?_ rfl (hk.aside hc')
      rw [erase_middle hc'.nodup]
      exact hc'.skip hk

end Lists

/-- An action changes the lists as it should. -/
theorem step_lists {w : Network α β} {ls : List (List NodeKey)} (h : w.Lists ls)
    (hs : w.graph.Sound) (a : Action α β) : (w.step a).2.Lists (a.enroll (w.step a).1 ls) := by
  cases a with
  | addNode data capacity isSink => exact h.addNode data capacity isSink
  | link a b => exact h.samePlaces (.link w.graph a b)
  | unlink node => exact h.samePlaces (.unlink hs node)
  | push edge => exact h.samePlaces (.pushUnit w.graph edge)
  | collect data maxFlow => exact h.collect data maxFlow
  | add i k => exact h.add i k
  | remove i k => exact h.remove hs i k
  | stream i =>
    rcases w.onCollection_cases i fun c g => (.done, (c.next g).2) with
      ⟨-, he⟩ | ⟨c, hc, he⟩ <;> rw [step, he]
    · exact h
    · obtain ⟨l, hl⟩ := h.exists_list hc
      obtain ⟨hg, hid, hj⟩ := Collection.next_spec (h.holds hc hl)
      exact h.keep hc hl hj hid hg

/-- Behind every run the collections hold the lists that they should. -/
theorem run_holds (actions : List (Action α β)) : (run actions).Lists (rosters actions) := by
  have hrun : ∀ (actions : List (Action α β)) {w : Network α β} {ls}, w.Lists ls → w.graph.Sound →
      (w.after actions).Lists (w.enrolled ls actions) := by
    intro actions
    induction actions with
    | nil => exact fun h _ => h
    | cons a actions ih => exact fun h hs => ih (step_lists h hs a) (step_sound _ a hs)
  exact hrun actions .empty .empty

/-! ## What the collections tell -/

/-- What a collection tells about itself, as its list has it. -/
structure IsList (c : Collection β) (g : Graph α) (l : List NodeKey) : Prop where
  nodup : l.Nodup
  /-- Following the links from the head ends behind the last element. -/
  thread : Collection.Thread g c.head l
  members : c.members g = l
  size : c.size = l.length
  isEmpty : c.isEmpty = l.isEmpty
  contains : ∀ k, c.contains g k = true ↔ k ∈ l
  head : c.head = l.head?
  tail : c.tail = l.getLast?
  cursor : ∀ k, c.cursor = some k → k ∈ l

theorem IsList.of_holds {c : Collection β} {g : Graph α} {l : List NodeKey} (h : c.Holds g l) :
    IsList c g l where
  nodup := h.nodup
  thread := h.thread
  members := h.members_eq
  size := h.size
  isEmpty := h.isEmpty_eq
  contains := h.contains_iff
  head := h.head
  tail := h.tail
  cursor _ := h.cursor

/-- No node is on two lists. -/
theorem Lists.disjoint {w : Network α β} {ls : List (List NodeKey)} (h : w.Lists ls)
    {i j : CollectionId} {l m : List NodeKey} (hl : ls[i]? = some l) (hm : ls[j]? = some m)
    (hij : i ≠ j) : l.Disjoint m := by
  have hlist : ∀ {i : CollectionId} {l}, ls[i]? = some l → ∃ c, w.collections[i]? = some c := by
    intro i l hl
    have hi := (List.getElem?_eq_some_iff.1 hl).1
    exact ⟨_, List.getElem?_eq_getElem (h.length ▸ hi)⟩
  intro k hk hk'
  obtain ⟨c, hc⟩ := hlist hl
  obtain ⟨d, hd⟩ := hlist hm
  obtain ⟨p, hp, hpc⟩ := ((h.holds hc hl).mem_iff k).1 hk
  obtain ⟨q, hq, hqd⟩ := ((h.holds hd hm).mem_iff k).1 hk'
  rw [hp] at hq
  cases hq
  rw [hpc, h.id_eq hc, h.id_eq hd] at hqd
  exact hij (Option.some.inj hqd)

/-- A node with a neighbour is on a list, together with this neighbour. -/
theorem Lists.next_iff_previous {w : Network α β} {ls : List (List NodeKey)} (h : w.Lists ls)
    (a b : NodeKey) : (w.graph.node? a).bind Node.next = some b ↔
      (w.graph.node? b).bind Node.previous = some a := by
  have hlist : ∀ {k n}, w.graph.node? k = some n → n.place ≠ .free →
      ∃ (c : Collection β) (l : List NodeKey), c.Holds w.graph l ∧ k ∈ l := by
    intro k n hn hp
    have hk := Graph.place?_eq hn
    cases hi : n.place.collection with
    | none => exact absurd (h.tidy k _ hk hi) hp
    | some i =>
      have hc := List.getElem?_eq_getElem (h.known hk hi)
      obtain ⟨l, hl⟩ := h.exists_list hc
      refine ⟨_, l, h.holds hc hl, (h.holds hc hl).only hk ?_⟩
      rw [hi, h.id_eq hc]
  constructor
  · intro hab
    obtain ⟨n, hn, hnext⟩ := Option.bind_eq_some_iff.1 hab
    obtain ⟨c, l, hc, ha⟩ := hlist hn fun hp => by
      injection hp with _ hp
      rw [hp] at hnext
      cases hnext
    exact ((hc.next_iff_previous ha).1 hab).2
  · intro hab
    obtain ⟨n, hn, hprevious⟩ := Option.bind_eq_some_iff.1 hab
    obtain ⟨c, l, hc, hb⟩ := hlist hn fun hp => by
      injection hp with _ _ hp
      rw [hp] at hprevious
      cases hprevious
    obtain ⟨xs, ys, rfl⟩ := List.append_of_mem hb
    have ha : a ∈ xs := List.mem_of_getLast? ((hc.links rfl).2.symm.trans hab)
    exact (hc.next_iff_previous (List.mem_append_left _ ha)).2 ⟨hb, hab⟩

/-- A member leaves when it is told to, and is free then. -/
theorem Lists.remove_done {w : Network α β} {ls : List (List NodeKey)} (h : w.Lists ls)
    (hs : w.graph.Sound) {i : CollectionId} {l : List NodeKey} (hl : ls[i]? = some l)
    {k : NodeKey} (hk : k ∈ l) : (w.step (.remove i k)).1 = .done ∧
      (w.step (.remove i k)).2.graph.place? k = some .free := by
  have hi := (List.getElem?_eq_some_iff.1 hl).1
  have hc := List.getElem?_eq_getElem (h.length ▸ hi : i < w.collections.length)
  rcases Collection.remove_spec hs (h.holds hc hl) k with
    ⟨hk', -⟩ | ⟨xs, ys, n, g, -, -, hp, hr⟩
  · exact absurd hk hk'
  · simp only [step, onCollection, hc, hr]
    exact ⟨rfl, (hp.place k).trans (if_pos rfl)⟩

/-- A free node joins when it is told to. -/
theorem Lists.add_done {w : Network α β} {ls : List (List NodeKey)} (h : w.Lists ls)
    {i : CollectionId} {l : List NodeKey} (hl : ls[i]? = some l) {k : NodeKey}
    (hk : w.graph.place? k = some .free) : (w.step (.add i k)).1 = .done := by
  have hi := (List.getElem?_eq_some_iff.1 hl).1
  have hc := List.getElem?_eq_getElem (h.length ▸ hi : i < w.collections.length)
  obtain ⟨c', g, hr, -⟩ := h.append hc hl hk
  simp only [step, onCollection, hc, hr]
  rfl

/-- A member that leaves and joins again goes to the end of its list. -/
theorem Lists.rejoin {w : Network α β} {ls : List (List NodeKey)} (h : w.Lists ls)
    (hs : w.graph.Sound) {i : CollectionId} {l : List NodeKey} (hl : ls[i]? = some l)
    {k : NodeKey} (hk : k ∈ l) :
    w.enrolled ls [.remove i k, .add i k] = ls.modify i fun l => l.erase k ++ [k] := by
  obtain ⟨hr, hfree⟩ := h.remove_done hs hl hk
  have h' := step_lists h hs (.remove i k)
  rw [hr] at h'
  have hl' : (ls.modify i (·.erase k))[i]? = some (l.erase k) := by simp [hl]
  have ha := h'.add_done hl' hfree
  simp only [enrolled, hr, ha, Action.enroll]
  rw [List.modify_modify_eq]
  rfl

/-- **Collections are lists**: whatever is done to the graph and its collections,
    every collection tells of itself what its list says, where joining appends a
    node, leaving erases it and nothing else matters; no node is on two lists, and
    a member that leaves and joins again goes to the end. -/
theorem run_lists (actions : List (Action α β)) :
    (rosters actions).length = (run actions).collections.length ∧
      (∀ (i : CollectionId) c l, (run actions).collections[i]? = some c →
        (rosters actions)[i]? = some l → IsList c (run actions).graph l) ∧
      (∀ (i j : CollectionId) (l m : List NodeKey), (rosters actions)[i]? = some l →
        (rosters actions)[j]? = some m → i ≠ j → l.Disjoint m) ∧
      (∀ a b, ((run actions).graph.node? a).bind Node.next = some b ↔
        ((run actions).graph.node? b).bind Node.previous = some a) ∧
      ∀ (i : CollectionId) l k, (rosters actions)[i]? = some l → k ∈ l →
        rosters (actions ++ [.remove i k, .add i k]) =
          (rosters actions).modify i fun l => l.erase k ++ [k] := by
  have h := run_holds actions
  refine ⟨h.length, fun i c l hc hl => .of_holds (h.holds hc hl),
    fun i j l m hl hm hij => h.disjoint hl hm hij, h.next_iff_previous, fun i l k hl hk => ?_⟩
  rw [rosters, enrolled_append]
  exact h.rejoin (run_sound actions) hl hk

end Network
end Matchbook.Flow
