/-
  The caps of collections.

  * A step of a stream looks at the flow of its own collection only, and joining
    does not look at flow at all: a collection can be taken over its cap from
    outside (`run_over_cap`);
  * `Network.Fits` is what an action would have to check: room in every
    collection that an end of the pushed edge belongs to, and room for the units
    that a node brings along;
  * `step_capped_iff`, `run_capped_iff`: the caps are kept exactly by the actions
    that fit.
-/
import Matchbook.Proofs.Flow.Roster

namespace Matchbook.Flow

variable {α β : Type}

namespace Graph

/-! ## Units through nodes -/

/-- The units through the node behind a key. -/
def units (g : Graph α) (k : NodeKey) : Nat := (g.node? k).elim 0 Node.flow

/-- The units through the nodes of a list. -/
def load (g : Graph α) (l : List NodeKey) : Nat := (l.map g.units).sum

theorem units_eq {g : Graph α} {k : NodeKey} {n : Node α} (h : g.node? k = some n) :
    g.units k = n.flow := by simp [units, h]

/-- The collections of a node do not matter. -/
theorem units_congr {g g' : Graph α} {k : NodeKey}
    (h : (g'.node? k).map Node.alone = (g.node? k).map Node.alone) : g'.units k = g.units k := by
  have helim : ∀ o : Option (Node α), o.elim 0 Node.flow = (o.map Node.alone).elim 0 Node.flow := by
    intro o
    cases o <;> rfl
  rw [units, units, helim, h, ← helim]

end Graph

theorem SameFlow.units {g g' : Graph α} (h : SameFlow g g') (k : NodeKey) :
    g'.units k = g.units k :=
  Graph.units_congr (h.node k)

namespace Graph

/-- No node has more units than before. -/
def Ebbs (g g' : Graph α) : Prop := ∀ k, g'.units k ≤ g.units k

namespace Ebbs

theorem refl (g : Graph α) : Ebbs g g := fun _ => Nat.le_refl _

theorem trans {g g' g'' : Graph α} (h : Ebbs g g') (h' : Ebbs g' g'') : Ebbs g g'' :=
  fun k => Nat.le_trans (h' k) (h k)

theorem modifyNode (g : Graph α) (k : NodeKey) {f : Node α → Node α}
    (hf : ∀ n, (f n).flow ≤ n.flow) : Ebbs g (g.modifyNode k f) := by
  intro j
  rw [units, units, node?_modifyNode]
  split
  · cases g.node? j with
    | none => exact Nat.le_refl _
    | some n => exact hf n
  · exact Nat.le_refl _

theorem onEnds (g : Graph α) (edges : Arena Edge) (a b : NodeKey) {f : Node α → Node α}
    (hf : ∀ n, (f n).flow ≤ n.flow) : Ebbs g (g.onEnds edges a b f) :=
  (show Ebbs g { g with edges } from .refl g).trans ((modifyNode _ a hf).trans (modifyNode _ b hf))

theorem addNode (g : Graph α) (data : α) (capacity : Nat) (isSink : Bool) :
    Ebbs g (g.addNode data capacity isSink) := by
  intro k
  rw [units, units, node?_addNode]
  split
  · exact Nat.zero_le _
  · exact Nat.le_refl _

theorem link (g : Graph α) (a b : NodeKey) : Ebbs g (g.link a b).2 := by
  rcases g.link_cases a b with ⟨f, hl⟩ | ⟨x, y, s, t, -, -, -, -, -, -, hl⟩ <;> rw [hl]
  · exact refl g
  · exact onEnds g _ x y fun _ => Nat.le_refl _

theorem dropEdge (g : Graph α) (k : EdgeKey) : Ebbs g (g.dropEdge k) := by
  unfold Graph.dropEdge
  split
  · exact refl g
  · exact onEnds g _ _ _ fun _ => Nat.sub_le _ _

theorem foldl_dropEdge (g : Graph α) (ks : List EdgeKey) : Ebbs g (ks.foldl Graph.dropEdge g) := by
  induction ks generalizing g with
  | nil => exact refl g
  | cons k ks ih => exact (dropEdge g k).trans (ih _)

theorem unlink {g : Graph α} (h : g.Sound) (a : NodeKey) : Ebbs g (g.unlink a).2 := by
  cases hn : g.node? a with
  | none =>
    rw [unlink_of_none hn]
    exact refl g
  | some n =>
    rw [unlink_eq h hn]
    exact foldl_dropEdge g n.edges

theorem of_sameFlow {g g' : Graph α} (h : SameFlow g g') : Ebbs g g' :=
  fun k => Nat.le_of_eq (h.units k)

theorem remove {g : Graph α} (h : g.Sound) (c : Collection β) (k : NodeKey) :
    Ebbs g (c.remove g k).2.2 := by
  obtain ⟨g₁, hs, ⟨-, hr⟩ | hr⟩ := c.remove_cases g k <;> rw [hr]
  · exact of_sameFlow hs
  · exact (of_sameFlow hs).trans (unlink (h.congr hs) k)

/-- Fewer nodes with fewer units each have fewer units in all. -/
theorem load_le {g g' : Graph α} (h : Ebbs g g') {l l' : List NodeKey} (hl : l'.Sublist l) :
    g'.load l' ≤ g.load l := by
  induction hl with
  | slnil => exact Nat.le_refl _
  | @cons _ _ a _ ih => exact Nat.le_trans ih (by simp [load])
  | @cons_cons _ _ a _ ih =>
    simp only [load, List.map_cons, List.sum_cons] at ih ⊢
    exact Nat.add_le_add (h a) ih

end Ebbs

/-- A unit along an edge goes through both of its ends. -/
theorem load_unitAlong {g : Graph α} (h : g.Sound) {k : EdgeKey} {e : Edge}
    (he : g.edge? k = some e) {l : List NodeKey} (hl : l.Nodup) :
    (g.unitAlong k e).load l = g.load l +
      ((if e.source ∈ l then 1 else 0) + if e.sink ∈ l then 1 else 0) := by
  have hne := h.source_ne_sink he
  have hunits : ∀ j, (g.unitAlong k e).units j =
      g.units j + ((if e.source = j then 1 else 0) + if e.sink = j then 1 else 0) := by
    intro j
    rw [units, unitAlong, node?_onEnds _ _ hne, units]
    by_cases hs : j = e.source
    · obtain ⟨n, hn⟩ := h.exists_node he (Or.inl hs)
      rw [if_pos (Or.inl hs), hn, if_pos hs.symm, if_neg (by rw [hs]; exact hne.symm)]
      rfl
    · by_cases ht : j = e.sink
      · obtain ⟨n, hn⟩ := h.exists_node he (Or.inr ht)
        rw [if_pos (Or.inr ht), hn, if_neg (Ne.symm hs), if_pos ht.symm]
        rfl
      · rw [if_neg (by simp [hs, ht]), if_neg (Ne.symm hs), if_neg (Ne.symm ht)]
        rfl
  induction l with
  | nil => rfl
  | cons j l ih =>
    obtain ⟨hj, hl⟩ := List.nodup_cons.1 hl
    have ih := ih hl
    simp only [load, List.map_cons, List.sum_cons, List.mem_cons, hunits] at ih ⊢
    have hone : ∀ a, (if a = j ∨ a ∈ l then 1 else 0) =
        (if a = j then 1 else 0) + if a ∈ l then 1 else 0 := by
      intro a
      by_cases ha : a = j
      · simp [ha, hj]
      · simp [ha]
    rw [hone, hone, ih]
    omega

end Graph

/-- How many ends of an edge belong to a collection. -/
def Collection.ends (c : Collection β) (g : Graph α) (e : Edge) : Nat :=
  (if c.contains g e.source then 1 else 0) + if c.contains g e.sink then 1 else 0

namespace Collection.Holds

variable {c : Collection β} {g : Graph α} {l : List NodeKey}

theorem flow_eq (h : c.Holds g l) : c.flow g = g.load l := by
  rw [Collection.flow, h.members_eq, Graph.load, List.sum_eq_foldr]
  congr 1
  refine List.map_congr_left fun k _ => ?_
  unfold Graph.units
  cases g.node? k <;> rfl

theorem ends_eq (h : c.Holds g l) (e : Edge) :
    c.ends g e = (if e.source ∈ l then 1 else 0) + if e.sink ∈ l then 1 else 0 := by
  simp only [Collection.ends, h.contains_iff]

end Collection.Holds

namespace Network

/-! ## Caps -/

/-- No collection carries more than its cap. -/
def Capped (w : Network α β) : Prop := ∀ c ∈ w.collections, c.flow w.graph ≤ c.maxFlow

instance (w : Network α β) : Decidable w.Capped :=
  inferInstanceAs (Decidable (∀ c ∈ w.collections, c.flow w.graph ≤ c.maxFlow))

/-- Every collection has room for the units that one along the edge brings it. -/
def Room (w : Network α β) (e : Edge) : Prop :=
  ∀ c ∈ w.collections, c.flow w.graph + c.ends w.graph e ≤ c.maxFlow

/-- The action takes no collection over its cap: a pushed unit has room in the
    collections of both of its ends, and a node that joins in the collection. -/
def Fits (w : Network α β) : Action α β → Prop
  | .push k => ∀ e, w.graph.edge? k = some e → w.graph.canPush k = true → w.Room e
  | .stream i => ∀ c step e, w.collections[i]? = some c → (c.next w.graph).1 = some step →
    w.graph.edge? step.edge = some e → w.Room e
  | .add i k => ∀ c n, w.collections[i]? = some c → w.graph.node? k = some n →
    n.collection = none → c.flow w.graph + n.flow ≤ c.maxFlow
  | _ => True

/-- The caps of the collections. -/
def caps (w : Network α β) : List Nat := w.collections.map Collection.maxFlow

variable {w w' : Network α β} {ls ls' : List (List NodeKey)}

/-- What holds of every collection holds of every cap with its list. -/
theorem Lists.forall_iff (h : w.Lists ls) {P : Collection β → Prop} {Q : Nat → List NodeKey → Prop}
    (hPQ : ∀ c l, c.Holds w.graph l → (P c ↔ Q c.maxFlow l)) :
    (∀ c ∈ w.collections, P c) ↔
      ∀ (i : CollectionId) m l, w.caps[i]? = some m → ls[i]? = some l → Q m l := by
  constructor
  · intro hw i m l hm hl
    rw [caps, List.getElem?_map] at hm
    obtain ⟨c, hc, rfl⟩ := Option.map_eq_some_iff.1 hm
    exact (hPQ c l (h.holds hc hl)).1 (hw c (List.mem_of_getElem? hc))
  · intro hw c hc
    obtain ⟨i, hi⟩ := List.getElem?_of_mem hc
    obtain ⟨l, hl⟩ := h.exists_list hi
    exact (hPQ c l (h.holds hi hl)).2 (hw i c.maxFlow l (by simp [caps, hi]) hl)

theorem Lists.capped_iff (h : w.Lists ls) : w.Capped ↔ ∀ (i : CollectionId) m l,
    w.caps[i]? = some m → ls[i]? = some l → w.graph.load l ≤ m :=
  h.forall_iff fun c l hc => by rw [hc.flow_eq]

theorem Lists.room_iff (h : w.Lists ls) (e : Edge) : w.Room e ↔ ∀ (i : CollectionId) m l,
    w.caps[i]? = some m → ls[i]? = some l →
      w.graph.load l + ((if e.source ∈ l then 1 else 0) + if e.sink ∈ l then 1 else 0) ≤ m :=
  h.forall_iff fun c l hc => by rw [hc.flow_eq, hc.ends_eq]

/-- The caps are kept where the same lists, or parts of them, carry no more. -/
theorem Lists.capped_of_ebbs (h : w.Lists ls) (h' : w'.Lists ls') (hcaps : w'.caps = w.caps)
    (hg : Graph.Ebbs w.graph w'.graph)
    (hls : ∀ (i : CollectionId) l', ls'[i]? = some l' → ∃ l, ls[i]? = some l ∧ l'.Sublist l)
    (hw : w.Capped) : w'.Capped := by
  rw [h.capped_iff] at hw
  rw [h'.capped_iff, hcaps]
  intro i m l' hm hl'
  obtain ⟨l, hl, hsub⟩ := hls i l' hl'
  exact Nat.le_trans (hg.load_le hsub) (hw i m l hm hl)

/-- One more unit along an edge keeps the caps if there is room for it. -/
theorem Lists.capped_unitAlong_iff (h : w.Lists ls) (h' : w'.Lists ls) (hs : w.graph.Sound)
    (hcaps : w'.caps = w.caps) {k : EdgeKey} {e : Edge} (he : w.graph.edge? k = some e)
    (hg : w'.graph = w.graph.unitAlong k e) : w'.Capped ↔ w.Room e := by
  have hload : ∀ {i : CollectionId} {l}, ls[i]? = some l → w'.graph.load l = w.graph.load l +
      ((if e.source ∈ l then 1 else 0) + if e.sink ∈ l then 1 else 0) := by
    intro i l hl
    obtain ⟨c, hc⟩ : ∃ c, w.collections[i]? = some c :=
      ⟨_, List.getElem?_eq_getElem (h.length ▸ (List.getElem?_eq_some_iff.1 hl).1)⟩
    rw [hg, Graph.load_unitAlong hs he (h.holds hc hl).nodup]
  rw [h'.capped_iff, h.room_iff, hcaps]
  constructor
  · intro hw i m l hm hl
    rw [← hload hl]
    exact hw i m l hm hl
  · intro hw i m l hm hl
    rw [hload hl]
    exact hw i m l hm hl

/-- A collection that is changed looks the same if what is looked at has not changed. -/
theorem map_set {γ : Type} (look : Collection β → γ) {i : CollectionId} {c c' : Collection β}
    (hc : w.collections[i]? = some c) (h : look c' = look c) :
    (w.collections.set i c').map look = w.collections.map look := by
  obtain ⟨hi, rfl⟩ := List.getElem?_eq_some_iff.1 hc
  rw [List.map_set, h]
  exact List.ext_getElem? fun j => by
    rw [List.getElem?_set]
    split
    · next hij => subst hij; simp [hi]
    · rfl

theorem caps_set {i : CollectionId} {c c' : Collection β} {g : Graph α}
    (hc : w.collections[i]? = some c) (hm : c'.maxFlow = c.maxFlow) :
    caps ⟨g, w.collections.set i c'⟩ = w.caps := map_set Collection.maxFlow hc hm

theorem Lists.capped_push_iff (h : w.Lists ls) (hs : w.graph.Sound) (hw : w.Capped) (k : EdgeKey) :
    (w.step (.push k)).2.Capped ↔ w.Fits (.push k) := by
  have h' := step_lists h hs (.push k)
  rcases w.graph.pushUnit_eq k with ⟨e, he, hp, hu⟩ | ⟨hp, hu⟩
  · rw [h.capped_unitAlong_iff h' hs rfl he (by rw [step, hu])]
    constructor
    · rintro hr e' he' -
      rw [he] at he'
      cases he'
      exact hr
    · exact fun hf => hf e he hp
  · rw [step, hu]
    refine iff_of_true hw fun e _ hp' => ?_
    rw [hp] at hp'
    cases hp'

theorem Lists.capped_collect (h : w.Lists ls) (hs : w.graph.Sound) (hw : w.Capped) (data : β)
    (maxFlow : Nat) : (w.step (.collect data maxFlow)).2.Capped := by
  rw [h.capped_iff] at hw
  rw [(step_lists h hs (.collect data maxFlow)).capped_iff]
  intro i m l hm hl
  simp only [Action.enroll, step, caps, List.map_append, List.getElem?_append, List.length_map,
    h.length] at hm hl
  split at hl
  · next hi =>
    rw [if_pos hi] at hm
    exact hw i m l hm hl
  · obtain ⟨-, rfl⟩ := List.getElem?_eq_some_iff.1 hl
    simp [Graph.load]

theorem Lists.capped_add_iff (h : w.Lists ls) (hs : w.graph.Sound) (hw : w.Capped)
    (i : CollectionId) (k : NodeKey) : (w.step (.add i k)).2.Capped ↔ w.Fits (.add i k) := by
  have h' := step_lists h hs (.add i k)
  rcases w.onCollection_cases i fun c g => ((c.add g k).1 |> .of, (c.add g k).2) with
    ⟨hc, he⟩ | ⟨c, hc, he⟩ <;> rw [step, he] at h' ⊢
  · refine iff_of_true hw fun c n hc' => ?_
    rw [hc] at hc'
    cases hc'
  · obtain ⟨l, hl⟩ := h.exists_list hc
    have hsame := c.add_sameFlow w.graph k
    rcases Collection.add_cases (h.holds hc hl) k with ⟨hn, f, hr⟩ | ⟨n, g, hn, hfree, -, hr⟩ <;>
      rw [hr] at h' hsame ⊢
    · refine iff_of_true ?_ fun c n _ hn' hfree => absurd hfree (hn n hn')
      exact h.capped_of_ebbs h' (caps_set hc rfl) (.refl _) (fun i l hl => ⟨l, hl, .refl l⟩) hw
    · have hunits : g.units = w.graph.units := funext hsame.units
      have hload : g.load (l ++ [k]) = c.flow w.graph + n.flow := by
        simp [(h.holds hc hl).flow_eq, Graph.load, hunits, Graph.units_eq hn]
      have hcap : w.caps[i]? = some c.maxFlow := by simp [caps, hc]
      dsimp only at h' ⊢
      rw [h.capped_iff] at hw
      rw [h'.capped_iff, caps_set hc (by rfl)]
      constructor
      · intro hw' c₁ n₁ hc₁ hn₁ _
        obtain rfl : c = c₁ := Option.some.inj (hc.symm.trans hc₁)
        obtain rfl : n = n₁ := Option.some.inj (hn.symm.trans hn₁)
        rw [← hload]
        exact hw' i c.maxFlow (l ++ [k]) hcap (by simp [Action.enroll, Answer.of, hl])
      · intro hf j m l' hm hl'
        simp only [Action.enroll, Answer.of, List.getElem?_modify] at hl'
        by_cases hij : i = j
        · subst hij
          obtain rfl : c.maxFlow = m := Option.some.inj (hcap.symm.trans hm)
          obtain rfl : l ++ [k] = l' := by simpa [hl] using hl'
          rw [hload]
          exact hf c n hc hn hfree
        · have : w.graph.load l' ≤ m := hw j m l' hm (by simpa [hij] using hl')
          rwa [Graph.load, hunits, ← Graph.load]

theorem Lists.capped_remove (h : w.Lists ls) (hs : w.graph.Sound) (hw : w.Capped)
    (i : CollectionId) (k : NodeKey) : (w.step (.remove i k)).2.Capped := by
  have h' := step_lists h hs (.remove i k)
  rcases w.onCollection_cases i fun c g => ((c.remove g k).1 |> .of, (c.remove g k).2) with
    ⟨-, he⟩ | ⟨c, hc, he⟩ <;> rw [step, he] at h' ⊢
  · exact hw
  · have hg := Graph.Ebbs.remove hs c k
    obtain ⟨l, hl⟩ := h.exists_list hc
    rcases Collection.remove_spec hs (h.holds hc hl) k with
      ⟨-, f, hr⟩ | ⟨xs, ys, n, g, -, -, -, hr⟩ <;> rw [hr] at h' hg ⊢
    · exact h.capped_of_ebbs h' (caps_set hc rfl) hg (fun i l hl => ⟨l, hl, .refl l⟩) hw
    · exact h.capped_of_ebbs h' (caps_set hc rfl) hg (fun _ _ => sublist_of_modify_erase) hw

theorem Lists.capped_stream_iff (h : w.Lists ls) (hs : w.graph.Sound) (hw : w.Capped)
    (i : CollectionId) : (w.step (.stream i)).2.Capped ↔ w.Fits (.stream i) := by
  have h' := step_lists h hs (.stream i)
  rcases w.onCollection_cases i fun c g => (.done, (c.next g).2) with
    ⟨hc, he⟩ | ⟨c, hc, he⟩ <;> rw [step, he] at h' ⊢
  · refine iff_of_true hw fun c step e hc' => ?_
    rw [hc] at hc'
    cases hc'
  · rcases c.next_cases w.graph with hn | ⟨_, edge, behind, e, -, -, -, hedge, -, hn⟩ <;>
      rw [hn] at h' ⊢
    · refine iff_of_true ?_ fun c₁ step e hc₁ hstep => ?_
      · exact h.capped_of_ebbs h' (caps_set hc rfl) (.refl _) (fun i l hl => ⟨l, hl, .refl l⟩) hw
      · obtain rfl : c = c₁ := Option.some.inj (hc.symm.trans hc₁)
        rw [hn] at hstep
        cases hstep
    · rw [h.capped_unitAlong_iff h' hs (caps_set hc rfl) hedge rfl]
      constructor
      · intro hr c₁ step e₁ hc₁ hstep he₁
        obtain rfl : c = c₁ := Option.some.inj (hc.symm.trans hc₁)
        rw [hn] at hstep
        cases hstep
        obtain rfl : e = e₁ := Option.some.inj (hedge.symm.trans he₁)
        exact hr
      · exact fun hf => hf c _ e hc (by rw [hn]) hedge

/-- **What keeps the caps**: an action leaves every collection within its cap
    exactly if it fits. -/
theorem step_capped_iff (h : w.Lists ls) (hs : w.graph.Sound) (hw : w.Capped) (a : Action α β) :
    (w.step a).2.Capped ↔ w.Fits a := by
  have hquiet : (w.step a).2.caps = w.caps → a.enroll (w.step a).1 ls = ls →
      Graph.Ebbs w.graph (w.step a).2.graph → (w.step a).2.Capped := by
    intro hcaps hls hg
    have h' := step_lists h hs a
    rw [hls] at h'
    exact h.capped_of_ebbs h' hcaps hg (fun i l hl => ⟨l, hl, .refl l⟩) hw
  cases a with
  | addNode => exact iff_of_true (hquiet rfl rfl (.addNode _ _ _ _)) trivial
  | link => exact iff_of_true (hquiet rfl rfl (.link _ _ _)) trivial
  | unlink => exact iff_of_true (hquiet rfl rfl (.unlink hs _)) trivial
  | push k => exact h.capped_push_iff hs hw k
  | collect data maxFlow => exact iff_of_true (h.capped_collect hs hw data maxFlow) trivial
  | add i k => exact h.capped_add_iff hs hw i k
  | remove i k => exact iff_of_true (h.capped_remove hs hw i k) trivial
  | stream i => exact h.capped_stream_iff hs hw i

/-! ## Runs -/

/-- **When caps are kept**: no state of a run takes a collection over its cap
    exactly if every action of the run fits where it is performed. -/
theorem run_capped_iff (actions : List (Action α β)) :
    (∀ n, (run (actions.take n)).Capped) ↔
      ∀ n a, actions[n]? = some a → (run (actions.take n)).Fits a := by
  have hstep : ∀ n a, actions[n]? = some a → (run (actions.take n)).Capped →
      ((run (actions.take (n + 1))).Capped ↔ (run (actions.take n)).Fits a) := by
    intro n a ha hw
    rw [List.take_add_one, ha, Option.toList_some, run_append]
    exact step_capped_iff (run_holds _) (run_sound _) hw a
  constructor
  · intro h n a ha
    exact (hstep n a ha (h n)).1 (h (n + 1))
  · intro h n
    induction n with
    | zero => exact fun c hc => by cases hc
    | succ n ih =>
      cases ha : actions[n]? with
      | some a => exact (hstep n a ha ih).2 (h n a ha)
      | none =>
        rw [List.take_add_one, ha, Option.toList_none, List.append_nil]
        exact ih

/-- A collection is taken over its cap by the stream of another one, along an edge
    that ends at its member. -/
theorem run_over_cap : ¬ (run (α := Unit) (β := Unit) [.collect () 1, .collect () 0,
    .addNode () 1 true, .addNode () 1 false, .link 0 1, .add 0 0, .add 1 1, .stream 0]).Capped := by
  decide

end Network
end Matchbook.Flow
