/-
  Linking and unlinking nodes of a sound graph.

  * `link_cases`: two nodes are linked, by an edge without flow, or nothing
    changes;
  * `unlink_eq`: removing all edges of a node takes them out one after the other
    (`Graph.dropEdge`), gives back the units that went through the node, and never
    stops half-way;
  * `SamePlaces.unlink` and its like: collections do not notice any of this.
-/
import Matchbook.Proofs.Flow.Sound

namespace Matchbook.Flow

variable {α : Type}

namespace Graph

/-! ## Linking and unlinking -/

/-- Two nodes are linked if they are a source and a sink that no edge joins yet. -/
theorem link_cases (g : Graph α) (a b : NodeKey) :
    (∃ failure, g.link a b = (.error failure, g)) ∨
      ∃ x y s t, (x = a ∧ y = b ∨ x = b ∧ y = a) ∧ g.node? x = some s ∧ s.isSink = false ∧
        g.node? y = some t ∧ t.isSink = true ∧ g.isLinked x y = false ∧
        g.link a b = (.ok g.edges.nextKey, g.addEdge x y) := by
  unfold link
  cases ha : g.node? a with
  | none => exact Or.inl ⟨_, rfl⟩
  | some m =>
    cases hb : g.node? b with
    | none => exact Or.inl ⟨_, rfl⟩
    | some n =>
      by_cases hr : m.isSink = n.isSink
      · exact Or.inl ⟨.sameRole a b, by simp [hr]⟩
      · cases hm : m.isSink with
        | true =>
          have hn : n.isSink = false := by simpa [hm] using hr
          cases hl : g.isLinked b a with
          | true => exact Or.inl ⟨.alreadyLinked b a, by simp [hm, hn, hl]⟩
          | false =>
            exact Or.inr ⟨b, a, n, m, Or.inr ⟨rfl, rfl⟩, hb, hn, ha, hm, hl, by simp [hm, hn, hl]⟩
        | false =>
          have hn : n.isSink = true := by simpa [hm] using hr
          cases hl : g.isLinked a b with
          | true => exact Or.inl ⟨.alreadyLinked a b, by simp [hm, hn, hl]⟩
          | false =>
            exact Or.inr ⟨a, b, m, n, Or.inl ⟨rfl, rfl⟩, ha, hm, hb, hn, hl, by simp [hm, hn, hl]⟩

/-- Gives a node another list of edges. -/
def relist (g : Graph α) (node : NodeKey) (ks : List EdgeKey) : Graph α :=
  g.modifyNode node fun n => { n with edges := ks }

/-- The edges still to be released are the list of the node in a sound graph:
    releasing the first of them takes it out of that graph. -/
theorem relist_dropEdge {g : Graph α} {node peer : NodeKey} {k : EdgeKey} {ks : List EdgeKey}
    (h : (g.relist node (k :: ks)).Sound) {e : Edge} (he : g.edge? k = some e) (hp : node ≠ peer)
    (hends : ∀ j, e.Touches j ↔ j = node ∨ j = peer) :
    ((({ g with edges := g.edges.erase k } : Graph α).modifyNode peer (detach k e.flow)).modifyNode
      node fun n => { n with flow := n.flow - e.flow }).relist node ks =
        (g.relist node (k :: ks)).dropEdge k := by
  have he' : (g.relist node (k :: ks)).edge? k = some e := he
  refine ext_node? (fun j => ?_) (by rw [dropEdge_eq he']; rfl) (by rw [dropEdge_eq he']; rfl)
  rw [dropEdge_eq he', node?_onEnds _ _ (h.source_ne_sink he')]
  simp only [Edge.Touches] at hends
  simp only [hends, relist, node?_modifyNode, node?_withEdges]
  by_cases hj : j = node
  · subst hj
    cases hn : g.node? j with
    | none => simp [hp]
    | some n =>
      have hn' : (g.relist j (k :: ks)).node? j = some { n with edges := k :: ks } := by
        simp [relist, hn]
      have hf : ks.filter (· != k) = ks := List.filter_eq_self.2 fun i hi => by
        rw [bne_iff_ne]
        rintro rfl
        exact (List.nodup_cons.1 (h.nodup hn')).1 hi
      simp [hp, detach, hf]
  · simp [hj]

/-- Releasing edges that are the list of the node in a sound graph takes them out
    one by one. -/
theorem release_eq (node : NodeKey) : ∀ (ks : List EdgeKey) (released : Nat) {g : Graph α}
    {n : Node α}, g.node? node = some n → n.edges = [] → (g.relist node ks).Sound →
      release node ks released g =
        (.ok (released + (ks.map g.carried).sum), ks.foldl dropEdge (g.relist node ks))
  | [], released, g, n, hn, hl, h => by
    have hg : g.relist node [] = g := by
      refine ext_node? (fun j => ?_) rfl rfl
      rw [relist, node?_modifyNode]
      split
      · next hj => rw [hj, hn, Option.map_some, ← hl]
      · rfl
    simp [release, hg]
  | k :: ks, released, g, n, hn, hl, h => by
    have hn' : (g.relist node (k :: ks)).node? node = some { n with edges := k :: ks } := by
      simp [relist, hn]
    obtain ⟨e, he, ht⟩ := (h.mem_edges hn' k).1 List.mem_cons_self
    have he' : g.edge? k = some e := he
    obtain ⟨peer, hpeer, hp, hends⟩ := Edge.exists_other (h.source_ne_sink he) ht
    obtain ⟨q, hq⟩ : ∃ q, g.node? peer = some q := by
      obtain ⟨q, hq⟩ := h.exists_node he ((hends peer).2 (Or.inr rfl))
      rw [relist, node?_modifyNode, if_neg hp.symm] at hq
      exact ⟨q, hq⟩
    have hstep := relist_dropEdge h he' hp hends
    set g₁ : Graph α := ((({ g with edges := g.edges.erase k } : Graph α).modifyNode peer
      (detach k e.flow)).modifyNode node fun n => { n with flow := n.flow - e.flow }) with hg₁
    have hn₁ : g₁.node? node = some { n with flow := n.flow - e.flow } := by
      simp [hg₁, hp, hn]
    have hsum : (ks.map g₁.carried).sum = (ks.map g.carried).sum := by
      congr 1
      refine List.map_congr_left fun i hi => ?_
      have hik : i ≠ k := by
        rintro rfl
        exact (List.nodup_cons.1 (h.nodup hn')).1 hi
      have : g₁.edge? i = g.edge? i := (Arena.get?_erase _ _ _).trans (if_neg hik)
      simp [carried, this]
    have hunfold : release node (k :: ks) released g = release node ks (released + e.flow) g₁ := by
      simp only [release, he', hpeer, node?_withEdges, hq]
      rfl
    have ih := release_eq node ks (released + e.flow) hn₁ hl (by rw [hstep]; exact h.dropEdge k)
    rw [hunfold, ih, hstep, hsum]
    simp [carried_eq he', Nat.add_assoc]

/-- Unlinking a node of a sound graph takes its edges out one after the other and
    gives the units that went through it. -/
theorem unlink_eq {g : Graph α} (h : g.Sound) {a : NodeKey} {n : Node α} (hn : g.node? a = some n) :
    g.unlink a = (.ok n.flow, n.edges.foldl dropEdge g) := by
  have hg : (g.modifyNode a fun n => { n with edges := [] }).relist a n.edges = g := by
    refine ext_node? (fun j => ?_) rfl rfl
    simp only [relist, node?_modifyNode]
    by_cases hj : j = a
    · subst hj
      simp [hn]
    · simp [hj]
  have hn' : (g.modifyNode a fun n => { n with edges := [] }).node? a =
      some { n with edges := [] } := by simp [hn]
  have hr := release_eq a n.edges 0 hn' rfl (by rw [hg]; exact h)
  rw [hg] at hr
  simp only [unlink, hn]
  rw [hr, h.balance hn, Nat.zero_add]
  rfl

theorem unlink_of_none {g : Graph α} {a : NodeKey} (hn : g.node? a = none) :
    g.unlink a = (.error (.unknownNode a), g) := by simp [unlink, hn]

end Graph

/-! ## Operations on edges keep the places of nodes -/

namespace SamePlaces

theorem link (g : Graph α) (a b : NodeKey) : SamePlaces g (g.link a b).2 := by
  rcases g.link_cases a b with ⟨f, hl⟩ | ⟨x, y, s, t, -, -, -, -, -, -, hl⟩ <;> rw [hl]
  · exact refl g
  · exact addEdge g x y

theorem unlink {g : Graph α} (h : g.Sound) (a : NodeKey) : SamePlaces g (g.unlink a).2 := by
  cases hn : g.node? a with
  | none =>
    rw [Graph.unlink_of_none hn]
    exact refl g
  | some n =>
    rw [Graph.unlink_eq h hn]
    exact foldl_dropEdge g n.edges

theorem pushUnit (g : Graph α) (k : EdgeKey) : SamePlaces g (g.pushUnit k).2 := by
  rcases g.pushUnit_eq k with ⟨e, -, -, hu⟩ | ⟨-, hu⟩ <;> rw [hu]
  · exact unitAlong g k e
  · exact refl g

end SamePlaces
end Matchbook.Flow
