/-
  What one step of a stream and the operations of a collection can do.

  * `next_cases`: a step changes nothing, or it pushes one unit along an edge
    that takes it and moves the cursor;
  * `seek_spec` says what the search for that edge finds;
  * `add_sameFlow` and `remove_cases`: joining a collection does not touch the
    flow, leaving it only by removing the edges of the node.
-/
import Matchbook.Proofs.Flow.Graph

namespace Matchbook.Flow.Collection

variable {α β : Type}

/-! ## Streaming -/

theorem openEdge_eq_some {g : Graph α} {k : NodeKey} {e : EdgeKey} (h : openEdge g k = some e) :
    g.hasRoom k = true ∧ e ∈ g.edgesOf k ∧ g.canPush e = true := by
  unfold openEdge at h
  split at h
  · next hr => exact ⟨hr, List.mem_of_find?_eq_some h, List.find?_some h⟩
  · cases h

/-- What holds of the node at which the search begins and of every node that
    follows one of which it holds, holds of the node that is found and of the one
    behind it. -/
theorem seek_spec {g : Graph α} {head start : NodeKey} {P : NodeKey → Prop}
    (hP : ∀ k, P k → P (following g head k)) :
    ∀ (fuel : Nat) {current : NodeKey} {e : EdgeKey} {behind : NodeKey}, P current →
      seek g head start fuel current = some (e, behind) →
        ∃ k, P k ∧ openEdge g k = some e ∧ behind = following g head k
  | 0, _, _, _, _, h => by cases h
  | fuel + 1, current, e, behind, hc, h => by
    unfold seek at h
    cases ho : openEdge g current with
    | some e' =>
      simp only [ho, Option.some.injEq, Prod.mk.injEq] at h
      obtain ⟨rfl, rfl⟩ := h
      exact ⟨current, hc, ho, rfl⟩
    | none =>
      simp only [ho] at h
      split at h
      · cases h
      · exact seek_spec hP fuel (hP current hc) h

/-- A step of a stream does nothing, or it pushes a unit along the open edge of a
    node and moves the cursor behind this node. -/
theorem next_cases (c : Collection β) (g : Graph α) :
    c.next g = (none, c, g) ∨ ∃ head edge behind e, c.flow g < c.maxFlow ∧ c.head = some head ∧
      seek g head (c.startOf g head) g.nodes.length (c.startOf g head) = some (edge, behind) ∧
      g.edge? edge = some e ∧ g.canPush edge = true ∧
      c.next g = (some ⟨edge, 1, c.flow g + 1⟩, { c with cursor := some behind },
        g.unitAlong edge e) := by
  by_cases hf : c.maxFlow ≤ c.flow g
  · exact Or.inl (by simp [next, hf])
  cases hh : c.head with
  | none => exact Or.inl (by simp [next, hf, hh])
  | some head =>
    cases hs : seek g head (c.startOf g head) g.nodes.length (c.startOf g head) with
    | none => exact Or.inl (by simp [next, hf, hh, hs])
    | some found =>
      obtain ⟨edge, behind⟩ := found
      obtain ⟨k, -, ho, -⟩ := seek_spec (P := fun _ => True) (fun _ _ => trivial) _ trivial hs
      have hp := (openEdge_eq_some ho).2.2
      rcases g.pushUnit_eq edge with ⟨e, he, -, hu⟩ | ⟨hp', -⟩
      · exact Or.inr ⟨head, edge, behind, e, Nat.lt_of_not_le hf, rfl, hs, he, hp,
          by simp [next, hf, hh, hs, hu]⟩
      · rw [hp] at hp'
        cases hp'

/-! ## Joining and leaving -/

/-- Joining a collection does not touch the flow. -/
theorem add_sameFlow (c : Collection β) (g : Graph α) (k : NodeKey) :
    SameFlow g (c.add g k).2.2 := by
  unfold add
  split
  · exact .refl g
  · split
    · exact .refl g
    · have h := SameFlow.modifyNode g k (f := fun n => { n with
        collection := some c.id, previous := c.tail, next := none }) fun _ => rfl
      dsimp only
      split
      · exact h
      · split
        · exact h
        · exact h.trans (.modifyNode _ _ fun _ => rfl)

theorem skipForward_sameFlow (c : Collection β) (g : Graph α) (previous next : Option NodeKey) :
    SameFlow g (c.skipForward g previous next).2.2 := by
  unfold skipForward
  split
  · exact .refl g
  · split
    · exact .refl g
    · exact .modifyNode g _ fun _ => rfl

theorem skipBackward_sameFlow (c : Collection β) (g : Graph α) (previous next : Option NodeKey) :
    SameFlow g (c.skipBackward g previous next).2.2 := by
  unfold skipBackward
  split
  · exact .refl g
  · split
    · exact .refl g
    · exact .modifyNode g _ fun _ => rfl

/-- Leaving a collection does not touch the flow, but for the edges of the node
    that leaves, unless it is refused. -/
theorem remove_cases (c : Collection β) (g : Graph α) (k : NodeKey) :
    ∃ g₁, SameFlow g g₁ ∧ ((∃ f, (c.remove g k).1 = .error f) ∧ (c.remove g k).2.2 = g₁ ∨
      (c.remove g k).2.2 = (g₁.unlink k).2) := by
  unfold remove
  split
  · exact ⟨g, .refl g, Or.inl ⟨⟨_, rfl⟩, rfl⟩⟩
  · next n _ =>
    split
    · exact ⟨g, .refl g, Or.inl ⟨⟨_, rfl⟩, rfl⟩⟩
    · have hf := skipForward_sameFlow c g n.previous n.next
      rcases hr : c.skipForward g n.previous n.next with ⟨_ | _, c₁, g₁⟩ <;> rw [hr] at hf
      · exact ⟨g₁, hf, Or.inl ⟨⟨_, rfl⟩, rfl⟩⟩
      · have hb := skipBackward_sameFlow c₁ g₁ n.previous n.next
        dsimp only at hf ⊢
        rcases hr' : c₁.skipBackward g₁ n.previous n.next with ⟨_ | _, c₂, g₂⟩ <;> rw [hr'] at hb
        · exact ⟨g₂, hf.trans hb, Or.inl ⟨⟨_, rfl⟩, rfl⟩⟩
        · refine ⟨_, (hf.trans hb).trans (.modifyNode g₂ k (f := fun n => { n with
            collection := none, previous := none, next := none }) fun _ => rfl), Or.inr rfl⟩

end Matchbook.Flow.Collection
