/-
  A stream goes round the members of its collection.

  * `goRound` visits the elements of a list in turn until one gives something, and
    leaves the list turned behind this element;
  * `Collection.Turned`: the members of a collection, turned so that the next step of a
    stream begins with the first of them;
  * `Turned.next_eq_some`: a step goes round these members for an open edge, pushes a unit
    along it, and leaves the members turned behind the one that it found.
-/
import Mathlib.Data.List.Rotate
import Matchbook.Proofs.Flow.Cap

namespace Matchbook.Flow

/-! ## Going round a list -/

section Round

variable {α β γ : Type}

/-- Visits the elements in turn until one gives something; gives this and all elements,
    those behind it first.  `passed` are those that were visited before. -/
def goRound (f : α → Option β) : (passed todo : List α) → Option (β × List α)
  | _, [] => none
  | passed, a :: todo =>
    match f a with
    | some b => some (b, todo ++ (passed ++ [a]))
    | none => goRound f (passed ++ [a]) todo

/-- If visits correspond, so do rounds, and both leave the list turned the same way. -/
theorem goRound_rel {f : α → Option β} {f' : α → Option γ} {R : β → γ → Prop} {todo : List α}
    (h : ∀ a ∈ todo, Option.Rel R (f a) (f' a)) (passed : List α) :
    Option.Rel (fun x y => R x.1 y.1 ∧ x.2 = y.2) (goRound f passed todo)
      (goRound f' passed todo) := by
  induction todo generalizing passed with
  | nil => exact .none
  | cons a todo ih =>
    obtain ⟨ha, hrest⟩ := List.forall_mem_cons.1 h
    unfold goRound
    generalize f a = x at ha ⊢
    generalize f' a = y at ha ⊢
    cases ha with
    | none => exact ih hrest _
    | some hR => exact .some ⟨hR, rfl⟩

/-- Elements can be visited by their keys. -/
theorem goRound_map (f : β → Option γ) (key : α → β) (passed todo : List α) :
    goRound f (passed.map key) (todo.map key) =
      (goRound (fun a => f (key a)) passed todo).map fun x => (x.1, x.2.map key) := by
  induction todo generalizing passed with
  | nil => rfl
  | cons a todo ih =>
    rw [List.map_cons]
    unfold goRound
    cases f (key a) with
    | some b => simp
    | none =>
      have ih := ih (passed ++ [a])
      rw [List.map_append, List.map_singleton] at ih
      exact ih

/-- A round ends with the first element that gives something, and the list is turned behind
    this element. -/
theorem goRound_split {f : α → Option β} {b : β} {cycle : List α} :
    ∀ {todo passed : List α}, goRound f passed todo = some (b, cycle) →
      ∃ xs a ys, todo = xs ++ a :: ys ∧ (∀ x ∈ xs, f x = none) ∧ f a = some b ∧
        cycle = ys ++ (passed ++ xs ++ [a])
  | a :: todo, passed, h => by
    unfold goRound at h
    cases hf : f a with
    | some b' =>
      simp only [hf, Option.some.injEq, Prod.mk.injEq] at h
      obtain ⟨rfl, rfl⟩ := h
      exact ⟨[], a, todo, rfl, nofun, hf, by simp⟩
    | none =>
      simp only [hf] at h
      obtain ⟨xs, a', ys, rfl, hxs, ha', rfl⟩ := goRound_split h
      exact ⟨a :: xs, a', ys, rfl, List.forall_mem_cons.2 ⟨hf, hxs⟩, ha', by simp⟩

/-- A round without a result: no element gives anything. -/
theorem goRound_eq_none {f : α → Option β} :
    ∀ {todo passed : List α}, goRound f passed todo = none → ∀ a ∈ todo, f a = none
  | [], _, _ => nofun
  | a :: todo, passed, h => by
    unfold goRound at h
    cases hf : f a with
    | some b => simp [hf] at h
    | none =>
      simp only [hf] at h
      exact List.forall_mem_cons.2 ⟨hf, goRound_eq_none h⟩

/-- A round gives what some element gives, and turns the list. -/
theorem goRound_eq_some {f : α → Option β} {b : β} {todo passed cycle : List α}
    (h : goRound f passed todo = some (b, cycle)) :
    (∃ a ∈ todo, f a = some b) ∧ (passed ++ todo) ~r cycle := by
  obtain ⟨xs, a, ys, rfl, -, ha, rfl⟩ := goRound_split h
  refine ⟨⟨a, by simp, ha⟩, ?_⟩
  rw [List.append_cons, ← List.append_assoc, ← List.append_assoc]
  exact List.isRotated_append

end Round

namespace Collection

variable {α β : Type} {c : Collection β} {g : Graph α} {l cycle : List NodeKey}

/-! ## Members in turn -/

/-- The collection is a list, and `cycle` is this list from the member on at which the
    next step of a stream begins. -/
structure Turned (c : Collection β) (g : Graph α) (l cycle : List NodeKey) : Prop where
  holds : c.Holds g l
  rotated : l ~r cycle
  start : ∀ head, c.head = some head → cycle.head? = some (c.startOf g head)

/-- A stream that has not begun begins with the first member. -/
theorem Turned.init (h : c.Holds g l) (hc : c.cursor = none) : c.Turned g l l where
  holds := h
  rotated := .refl l
  start head hh := by rw [startOf, hc, ← h.head, hh]

/-- Behind a member comes the next one, and the first one behind the last. -/
theorem Holds.following_eq (h : c.Holds g l) {head : NodeKey} (hh : c.head = some head)
    {xs ys : List NodeKey} {k : NodeKey} (hl : l = xs ++ k :: ys) :
    some (following g head k) = (ys ++ (xs ++ [k])).head? := by
  have hwrap : (ys ++ (xs ++ [k])).head? = (ys ++ l).head? := by
    rw [hl]
    cases ys with
    | cons y ys => rfl
    | nil => rfl
  rw [hwrap, following, (h.links hl).1, List.head?_append, ← h.head, hh, Option.or_some]

/-- Following the members means going round them, wherever they are turned. -/
theorem Turned.following_eq (h : c.Turned g l cycle) {head : NodeKey} (hh : c.head = some head)
    {xs ys : List NodeKey} {k : NodeKey} (hc : cycle = xs ++ k :: ys) :
    some (following g head k) = (ys ++ (xs ++ [k])).head? := by
  obtain ⟨n, hn⟩ := h.rotated
  rw [hc, List.rotate_eq_drop_append_take_mod] at hn
  have hl := List.take_append_drop (n % l.length) l
  generalize l.take (n % l.length) = as at hn hl
  generalize l.drop (n % l.length) = bs at hn hl
  -- the list, taken apart at the member and not where it is turned
  rcases append_eq_split hn with ⟨cs, rfl, rfl⟩ | ⟨cs, rfl, rfl⟩
  · have hl : l = cs ++ k :: (ys ++ bs) := by rw [← hl, List.append_assoc, List.cons_append]
    rw [h.holds.following_eq hh hl, List.append_assoc, List.append_assoc]
  · have hl : l = as ++ xs ++ k :: cs := by rw [← hl, List.append_assoc]
    rw [h.holds.following_eq hh hl, List.append_assoc, List.append_assoc]

/-- Behind an element of a cycle comes the rest of it, and in the end its first again. -/
theorem following_cases {head start : NodeKey} (hnodup : cycle.Nodup)
    (hstart : cycle.head? = some start)
    (hfollow : ∀ {xs k ys}, cycle = xs ++ k :: ys →
      some (following g head k) = (ys ++ (xs ++ [k])).head?)
    {passed todo : List NodeKey} {current : NodeKey} (hc : cycle = passed ++ current :: todo) :
    todo = [] ∧ following g head current = start ∨
      ∃ b rest, todo = b :: rest ∧ following g head current = b ∧ b ≠ start := by
  have hbehind := hfollow hc
  have hfirst : (passed ++ [current]).head? = some start := by
    rw [← hstart, hc]
    cases passed <;> rfl
  cases todo with
  | nil =>
    rw [List.nil_append, hfirst] at hbehind
    exact Or.inl ⟨rfl, Option.some.inj hbehind⟩
  | cons b rest =>
    refine Or.inr ⟨b, rest, rfl, Option.some.inj hbehind, ?_⟩
    rintro rfl
    rw [hc, List.append_cons] at hnodup
    exact (List.nodup_append.1 hnodup).2.2 b (List.mem_of_head? hfirst) b List.mem_cons_self rfl

/-- A search that begins with the first of a cycle goes round it. -/
theorem seek_eq {head start : NodeKey} (hnodup : cycle.Nodup) (hstart : cycle.head? = some start)
    (hfollow : ∀ {xs k ys}, cycle = xs ++ k :: ys →
      some (following g head k) = (ys ++ (xs ++ [k])).head?) :
    ∀ {todo passed : List NodeKey} {current : NodeKey} {fuel : Nat},
      cycle = passed ++ current :: todo → todo.length < fuel →
        seek g head start fuel current = (goRound (openEdge g) passed (current :: todo)).bind
          fun x => x.2.head?.map fun behind => (x.1, behind)
  | todo, passed, current, fuel + 1, hc, hfuel => by
    unfold seek goRound
    cases openEdge g current with
    | some edge =>
      dsimp only
      rw [Option.bind_some, ← hfollow hc]
      rfl
    | none =>
      dsimp only
      rcases following_cases hnodup hstart hfollow hc with ⟨rfl, hround⟩ | ⟨b, rest, rfl, hb, hne⟩
      · rw [if_pos hround]
        rfl
      · rw [hb, if_neg hne]
        exact seek_eq hnodup hstart hfollow (hc.trans (List.append_cons ..))
          (Nat.lt_of_succ_lt_succ hfuel)

/-- The search of a step goes round the turned members. -/
theorem Turned.seek_eq (h : c.Turned g l cycle) {head : NodeKey} (hh : c.head = some head) :
    seek g head (c.startOf g head) g.nodes.length (c.startOf g head) =
      (goRound (openEdge g) [] cycle).bind fun x => x.2.head?.map fun behind => (x.1, behind) := by
  have hstart := h.start head hh
  have hnodup : cycle.Nodup := h.rotated.nodup_iff.1 h.holds.nodup
  have hlength : cycle.length ≤ g.nodes.length := h.rotated.perm.length_eq ▸ h.holds.length_le
  obtain ⟨todo, rfl⟩ := List.head?_eq_some_iff.1 hstart
  exact Collection.seek_eq hnodup hstart (h.following_eq hh) rfl hlength

/-! ## A step -/

/-- Nothing happens if the cap is reached or no member has an open edge. -/
theorem Turned.next_eq_none (h : c.Turned g l cycle)
    (hnone : c.maxFlow ≤ g.load l ∨ goRound (openEdge g) [] cycle = none) :
    c.next g = (none, c, g) := by
  unfold next
  rw [h.holds.flow_eq]
  by_cases hcap : c.maxFlow ≤ g.load l
  · rw [if_pos hcap]
  · rw [if_neg hcap]
    cases hh : c.head with
    | none => rfl
    | some head =>
      dsimp only
      rw [h.seek_eq hh, hnone.resolve_left hcap]
      rfl

/-- A stream goes on with the member at the cursor. -/
theorem Turned.move (h : c.Holds g l) {k : NodeKey} (hr : l ~r k :: cycle) :
    Turned { c with cursor := some k } g l (k :: cycle) := by
  have hk : k ∈ l := hr.mem_iff.2 List.mem_cons_self
  have hl : Holds { c with cursor := some k } g l :=
    { h with cursor := fun hj => Option.some.inj hj ▸ hk }
  refine ⟨hl, hr, fun head _ => ?_⟩
  rw [startOf]
  dsimp only
  rw [if_pos ((hl.contains_iff k).2 hk)]
  rfl

/-- **A step** goes round the turned members for an open edge and pushes a unit along it;
    the next step begins behind the member that has it. -/
theorem Turned.next_eq_some (h : c.Turned g l cycle) (hcap : g.load l < c.maxFlow) {k : EdgeKey}
    {cycle' : List NodeKey} (hround : goRound (openEdge g) [] cycle = some (k, cycle')) :
    ∃ e c', g.edge? k = some e ∧ g.canPush k = true ∧
      c.next g = (some ⟨k, 1, g.load l + 1⟩, c', g.unitAlong k e) ∧ c'.maxFlow = c.maxFlow ∧
        c'.Turned (g.unitAlong k e) l cycle' := by
  obtain ⟨⟨a, ha, hopen⟩, hturned⟩ := goRound_eq_some hround
  have hrotated := h.rotated.trans hturned
  have hpush := (openEdge_eq_some hopen).2.2
  obtain ⟨e, he, -, hunit⟩ := (g.pushUnit_eq k).resolve_right fun hn => by simp [hpush] at hn
  have hmem : a ∈ l := h.rotated.mem_iff.2 ha
  cases hh : c.head with
  | none =>
    rw [List.head?_eq_none_iff.1 (h.holds.head.symm.trans hh)] at hmem
    cases hmem
  | some head =>
    cases cycle' with
    | nil =>
      rw [List.isRotated_nil_iff.1 hrotated] at hmem
      cases hmem
    | cons behind cycle' =>
      have hseek := h.seek_eq hh
      rw [hround] at hseek
      refine ⟨e, { c with cursor := some behind }, he, hpush, ?_, rfl,
        .move (h.holds.samePlaces (.unitAlong g k e)) hrotated⟩
      unfold next
      rw [h.holds.flow_eq, if_neg (Nat.not_le.2 hcap), hh]
      dsimp only
      rw [hseek]
      simp only [Option.bind_some, List.head?_cons, Option.map_some, hunit]

end Collection
end Matchbook.Flow
