/-
  Operations that are refused.

  * `Network.Refuses` lists the failures of each action with their conditions, in terms of
    the nodes, the edges and the members that are there;
  * `Graph.Sound.link_of_leads`, `Collection.add_of_member`, `Collection.remove_of_not_mem`
    and their like: an operation whose condition holds is refused before it changes
    anything;
  * `Refuses.step_eq` puts them together, `refuses_of_refused` says that there are no other
    failures: those that look possible half-way through an operation are not;
  * `run_refused_iff` says both of every network that can be reached.
-/
import Matchbook.Proofs.Flow.Drain

namespace Matchbook.Flow

variable {α β : Type}

/-! ## When an action is refused -/

/-- The failures with which a network refuses an action. -/
inductive Network.Refuses (w : Network α β) : Action α β → Failure → Prop
  /-- One of the nodes is not there; the first one is looked at first. -/
  | linkFirst {a b : NodeKey} : w.graph.node? a = none → Refuses w (.link a b) (.unknownNode a)
  | linkSecond {a b : NodeKey} {m : Node α} : w.graph.node? a = some m → w.graph.node? b = none →
    Refuses w (.link a b) (.unknownNode b)
  /-- Both nodes are sources or both are sinks. -/
  | sameRole {a b : NodeKey} {m n : Node α} : w.graph.node? a = some m → w.graph.node? b = some n →
    m.isSink = n.isSink → Refuses w (.link a b) (.sameRole a b)
  /-- An edge leads from the source to the sink, in whichever order they are given. -/
  | alreadyLinked {a b x y : NodeKey} : (x = a ∧ y = b ∨ x = b ∧ y = a) → w.graph.Leads x y →
    Refuses w (.link a b) (.alreadyLinked x y)
  | unlink {a : NodeKey} : w.graph.node? a = none → Refuses w (.unlink a) (.unknownNode a)
  /-- No edge has the key, or the edge carries a unit or has a full end. -/
  | pushAbsent {k : EdgeKey} : w.graph.edge? k = none → Refuses w (.push k) (.saturated k)
  | pushSaturated {k : EdgeKey} {e : Edge} : w.graph.edge? k = some e →
    (e.flow = 1 ∨ w.graph.Full e.source ∨ w.graph.Full e.sink) →
      Refuses w (.push k) (.saturated k)
  | addUnknown {i : CollectionId} {c : Collection β} {k : NodeKey} : w.collections[i]? = some c →
    w.graph.node? k = none → Refuses w (.add i k) (.unknownNode k)
  /-- The node is a member of a collection, be it this one or another. -/
  | alreadyMember {i j : CollectionId} {c d : Collection β} {k : NodeKey} :
    w.collections[i]? = some c → w.collections[j]? = some d → k ∈ d.members w.graph →
      Refuses w (.add i k) (.alreadyMember k j)
  | removeUnknown {i : CollectionId} {c : Collection β} {k : NodeKey} :
    w.collections[i]? = some c → w.graph.node? k = none →
      Refuses w (.remove i k) (.unknownNode k)
  /-- The node is there and not a member of this collection. -/
  | notMember {i : CollectionId} {c : Collection β} {k : NodeKey} {n : Node α} :
    w.collections[i]? = some c → w.graph.node? k = some n → k ∉ c.members w.graph →
      Refuses w (.remove i k) (.notMember k i)

/-! ## Operations on the graph -/

namespace Graph

variable {g : Graph α}

theorem link_of_first {a : NodeKey} (ha : g.node? a = none) (b : NodeKey) :
    g.link a b = (.error (.unknownNode a), g) := by simp [link, ha]

theorem link_of_second {a b : NodeKey} {m : Node α} (ha : g.node? a = some m)
    (hb : g.node? b = none) : g.link a b = (.error (.unknownNode b), g) := by simp [link, ha, hb]

theorem link_of_sameRole {a b : NodeKey} {m n : Node α} (ha : g.node? a = some m)
    (hb : g.node? b = some n) (hrole : m.isSink = n.isSink) :
    g.link a b = (.error (.sameRole a b), g) := by simp [link, ha, hb, hrole]

/-- Linked nodes are not linked again. -/
theorem Sound.link_of_leads (h : g.Sound) {a b x y : NodeKey}
    (hab : x = a ∧ y = b ∨ x = b ∧ y = a) (hl : g.Leads x y) :
    g.link a b = (.error (.alreadyLinked x y), g) := by
  obtain ⟨k, e, he, rfl, rfl⟩ := hl
  obtain ⟨⟨s, hs, hs'⟩, t, ht, ht'⟩ := h.ends he
  have hlinked := (h.isLinked_iff hs hs').2 ⟨k, e, he, rfl, rfl⟩
  rcases hab with ⟨rfl, rfl⟩ | ⟨rfl, rfl⟩ <;> simp [Graph.link, hs, ht, hs', ht', hlinked]

/-- A source and a sink that are not linked are linked when they are told to be. -/
theorem Sound.link_eq_ok (h : g.Sound) {a b x y : NodeKey} {s t : Node α}
    (hab : x = a ∧ y = b ∨ x = b ∧ y = a) (hs : g.node? x = some s) (hs' : s.isSink = false)
    (ht : g.node? y = some t) (ht' : t.isSink = true) (hl : ¬ g.Leads x y) :
    ∃ k, (g.link a b).1 = .ok k := by
  have hlinked : g.isLinked x y = false := by
    rw [Bool.eq_false_iff, ne_eq, h.isLinked_iff hs hs']
    exact hl
  rcases hab with ⟨rfl, rfl⟩ | ⟨rfl, rfl⟩ <;> simp [Graph.link, hs, ht, hs', ht', hlinked]

theorem Sound.pushUnit_of_full (h : g.Sound) {k : EdgeKey} {e : Edge} (he : g.edge? k = some e)
    (hfull : e.flow = 1 ∨ g.Full e.source ∨ g.Full e.sink) :
    g.pushUnit k = (.error (.saturated k), g) := by
  have hclosed := (h.canPush_eq_false_iff he).2 hfull
  rcases g.pushUnit_eq k with ⟨-, -, hopen, -⟩ | ⟨-, hu⟩
  · rw [hclosed] at hopen
    cases hopen
  · exact hu

end Graph

/-! ## Operations on collections -/

namespace Collection

variable {c : Collection β} {g : Graph α} {l : List NodeKey}

theorem add_of_none {k : NodeKey} (hk : g.node? k = none) :
    c.add g k = (.error (.unknownNode k), c, g) := by simp [add, hk]

/-- A member of any collection does not join one. -/
theorem add_of_member (c : Collection β) {d : Collection β} (hd : d.Holds g l) {k : NodeKey}
    (hk : k ∈ l) : c.add g k = (.error (.alreadyMember k d.id), c, g) := by
  obtain ⟨p, hp, hc⟩ := (hd.mem_iff k).1 hk
  obtain ⟨n, hn, rfl⟩ := Graph.exists_node_of_place? hp
  have hn' : n.collection = some d.id := hc
  simp [add, hn, hn']

theorem remove_of_none {k : NodeKey} (hk : g.node? k = none) :
    c.remove g k = (.error (.unknownNode k), c, g) := by simp [remove, hk]

/-- A node that is not a member does not leave. -/
theorem remove_of_not_mem (hc : c.Holds g l) {k : NodeKey} {n : Node α} (hn : g.node? k = some n)
    (hk : k ∉ l) : c.remove g k = (.error (.notMember k c.id), c, g) := by
  have hn' : n.collection ≠ some c.id := fun hn' => hk (hc.only (Graph.place?_eq hn) hn')
  simp [remove, hn, hn']

end Collection

/-! ## Refusals of a network -/

namespace Network

variable {w : Network α β} {ls : List (List NodeKey)}

/-- An operation that fails and leaves its collection and the graph as they were changes
    nothing. -/
theorem onCollection_of_error {γ : Type} {i : CollectionId} {c : Collection β} {f : Failure}
    (operation : Collection β → Graph α → Except Failure γ × Collection β × Graph α)
    (hc : w.collections[i]? = some c)
    (h : operation c w.graph = (.error f, c, w.graph)) :
    w.onCollection i (fun c g => (.of (operation c g).1, (operation c g).2)) = (.refused f, w) := by
  have hset : w.collections.set i c = w.collections := by
    obtain ⟨hi, rfl⟩ := List.getElem?_eq_some_iff.1 hc
    exact List.set_getElem_self hi
  simp only [onCollection, hc, h, hset, Answer.of]

/-- **What is refused leaves everything as it was**, the graph and all collections. -/
theorem Refuses.step_eq {a : Action α β} {f : Failure} (h : w.Refuses a f) (hls : w.Lists ls)
    (hs : w.graph.Sound) : w.step a = (.refused f, w) := by
  have hmembers : ∀ {i : CollectionId} {c : Collection β}, w.collections[i]? = some c →
      c.Holds w.graph (c.members w.graph) := by
    intro i c hc
    obtain ⟨l, hl⟩ := hls.exists_list hc
    have hholds := hls.holds hc hl
    rwa [hholds.members_eq]
  cases h with
  | linkFirst ha => rw [step, Graph.link_of_first ha]; rfl
  | linkSecond ha hb => rw [step, Graph.link_of_second ha hb]; rfl
  | sameRole ha hb hrole => rw [step, Graph.link_of_sameRole ha hb hrole]; rfl
  | alreadyLinked hab hl => rw [step, hs.link_of_leads hab hl]; rfl
  | unlink ha => rw [step, Graph.unlink_of_none ha]; rfl
  | pushAbsent hk => rw [step, Graph.pushUnit, hk]; rfl
  | pushSaturated he hfull => rw [step, hs.pushUnit_of_full he hfull]; rfl
  | addUnknown hc hk => exact onCollection_of_error (·.add · _) hc (Collection.add_of_none hk)
  | @alreadyMember _ _ c _ _ hc hd hk =>
    have hadd := c.add_of_member (hmembers hd) hk
    rw [hls.id_eq hd] at hadd
    exact onCollection_of_error (·.add · _) hc hadd
  | removeUnknown hc hk =>
    exact onCollection_of_error (·.remove · _) hc (Collection.remove_of_none hk)
  | notMember hc hn hk =>
    have hremove := Collection.remove_of_not_mem (hmembers hc) hn hk
    rw [hls.id_eq hc] at hremove
    exact onCollection_of_error (·.remove · _) hc hremove

theorem refuses_link (hs : w.graph.Sound) {a b : NodeKey} {f : Failure}
    (h : (w.graph.link a b).1 = .error f) : w.Refuses (.link a b) f := by
  cases ha : w.graph.node? a with
  | none =>
    rw [Graph.link_of_first ha] at h
    cases h
    exact .linkFirst ha
  | some m =>
    cases hb : w.graph.node? b with
    | none =>
      rw [Graph.link_of_second ha hb] at h
      cases h
      exact .linkSecond ha hb
    | some n =>
      by_cases hrole : m.isSink = n.isSink
      · rw [Graph.link_of_sameRole ha hb hrole] at h
        cases h
        exact .sameRole ha hb hrole
      · -- the source and the sink, in the order of the edge
        obtain ⟨x, y, s, t, hab, hx, hx', hy, hy'⟩ : ∃ x y s t, (x = a ∧ y = b ∨ x = b ∧ y = a) ∧
            w.graph.node? x = some s ∧ s.isSink = false ∧ w.graph.node? y = some t ∧
              t.isSink = true := by
          cases hm : m.isSink with
          | false => exact ⟨a, b, m, n, Or.inl ⟨rfl, rfl⟩, ha, hm, hb, by simpa [hm] using hrole⟩
          | true => exact ⟨b, a, n, m, Or.inr ⟨rfl, rfl⟩, hb, by simpa [hm] using hrole, ha, hm⟩
        by_cases hl : w.graph.Leads x y
        · rw [hs.link_of_leads hab hl] at h
          cases h
          exact .alreadyLinked hab hl
        · obtain ⟨k, hk⟩ := hs.link_eq_ok hab hx hx' hy hy' hl
          rw [hk] at h
          cases h

theorem refuses_unlink (hs : w.graph.Sound) {a : NodeKey} {f : Failure}
    (h : (w.graph.unlink a).1 = .error f) : w.Refuses (.unlink a) f := by
  cases ha : w.graph.node? a with
  | none =>
    rw [Graph.unlink_of_none ha] at h
    cases h
    exact .unlink ha
  | some n =>
    rw [Graph.unlink_eq hs ha] at h
    cases h

theorem refuses_push (hs : w.graph.Sound) {k : EdgeKey} {f : Failure}
    (h : (w.graph.pushUnit k).1 = .error f) : w.Refuses (.push k) f := by
  rcases w.graph.pushUnit_eq k with ⟨e, -, -, hu⟩ | ⟨hclosed, hu⟩ <;> rw [hu] at h <;> cases h
  cases he : w.graph.edge? k with
  | none => exact .pushAbsent he
  | some e => exact .pushSaturated he ((hs.canPush_eq_false_iff he).1 hclosed)

theorem refuses_add (hls : w.Lists ls) {i : CollectionId} {c : Collection β}
    (hc : w.collections[i]? = some c) {k : NodeKey} {f : Failure}
    (h : (c.add w.graph k).1 = .error f) : w.Refuses (.add i k) f := by
  obtain ⟨l, hl⟩ := hls.exists_list hc
  cases hn : w.graph.node? k with
  | none =>
    rw [Collection.add_of_none hn] at h
    cases h
    exact .addUnknown hc hn
  | some n =>
    cases hj : n.collection with
    | some j =>
      have hd := List.getElem?_eq_getElem (hls.known (Graph.place?_eq hn) hj)
      obtain ⟨m, hm⟩ := hls.exists_list hd
      have hholds := hls.holds hd hm
      have hk : k ∈ m := hholds.only (Graph.place?_eq hn) (by rw [hls.id_eq hd]; exact hj)
      rw [c.add_of_member hholds hk, hls.id_eq hd] at h
      cases h
      exact .alreadyMember hc hd (hholds.members_eq ▸ hk)
    | none =>
      rcases Collection.add_cases (hls.holds hc hl) k with ⟨hk, -⟩ | ⟨-, g, -, -, -, hadd⟩
      · exact absurd hj (hk n hn)
      · rw [hadd] at h
        cases h

theorem refuses_remove (hls : w.Lists ls) (hs : w.graph.Sound) {i : CollectionId}
    {c : Collection β} (hc : w.collections[i]? = some c) {k : NodeKey} {f : Failure}
    (h : (c.remove w.graph k).1 = .error f) : w.Refuses (.remove i k) f := by
  obtain ⟨l, hl⟩ := hls.exists_list hc
  have hholds := hls.holds hc hl
  rcases Collection.remove_spec hs hholds k with ⟨hk, -⟩ | ⟨xs, ys, n, g, -, -, -, hremove⟩
  · cases hn : w.graph.node? k with
    | none =>
      rw [Collection.remove_of_none hn] at h
      cases h
      exact .removeUnknown hc hn
    | some n =>
      rw [Collection.remove_of_not_mem hholds hn hk, hls.id_eq hc] at h
      cases h
      exact .notMember hc hn (hholds.members_eq ▸ hk)
  · rw [hremove] at h
    cases h

/-- No action fails in another way. -/
theorem refuses_of_refused {a : Action α β} {f : Failure} (hls : w.Lists ls)
    (hs : w.graph.Sound) (h : (w.step a).1 = .refused f) : w.Refuses a f := by
  have hfailed : ∀ {γ : Type} {x : Except Failure γ}, Answer.of x = .refused f → x = .error f := by
    intro γ x hx
    cases x with
    | ok => cases hx
    | error failure =>
      injection hx with hx
      rw [hx]
  have hcollection : ∀ {i : CollectionId}
      {operation : Collection β → Graph α → Answer × Collection β × Graph α},
      (w.onCollection i operation).1 = .refused f →
        ∃ c, w.collections[i]? = some c ∧ (operation c w.graph).1 = .refused f := by
    intro i operation hi
    rcases w.onCollection_cases i operation with ⟨-, he⟩ | ⟨c, hc, he⟩ <;> rw [he] at hi
    · cases hi
    · exact ⟨c, hc, hi⟩
  cases a with
  | addNode data capacity isSink => cases h
  | collect data maxFlow => cases h
  | link a b => exact refuses_link hs (hfailed h)
  | unlink a => exact refuses_unlink hs (hfailed h)
  | push k => exact refuses_push hs (hfailed h)
  | add i k =>
    obtain ⟨c, hc, hadd⟩ := hcollection h
    exact refuses_add hls hc (hfailed hadd)
  | remove i k =>
    obtain ⟨c, hc, hremove⟩ := hcollection h
    exact refuses_remove hls hs hc (hfailed hremove)
  | stream i =>
    obtain ⟨c, -, hstream⟩ := hcollection h
    cases hstream

/-- **Operations fail only as documented, and then change nothing**: whatever was done to the
    graph and its collections before, an action is refused with a failure exactly if this is
    listed for it, which leaves the whole network as it was; no action misses an edge. -/
theorem run_refused_iff (actions : List (Action α β)) (a : Action α β) :
    (∀ f, ((run actions).step a).1 = .refused f ↔ (run actions).Refuses a f) ∧
      (∀ f, ((run actions).step a).1 = .refused f → ((run actions).step a).2 = run actions) ∧
        ∀ k, ((run actions).step a).1 ≠ .refused (.unknownEdge k) := by
  have hls := run_holds actions
  have hs := run_sound actions
  have hiff : ∀ f, ((run actions).step a).1 = .refused f ↔ (run actions).Refuses a f := fun f =>
    ⟨refuses_of_refused hls hs, fun h => congrArg Prod.fst (h.step_eq hls hs)⟩
  refine ⟨hiff, fun f h => congrArg Prod.snd (((hiff f).1 h).step_eq hls hs), fun k h => ?_⟩
  cases (hiff _).1 h

end Network
end Matchbook.Flow
