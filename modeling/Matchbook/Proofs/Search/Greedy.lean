/-
  Filling an order greedily, without a graph.

  * `Lot` is the unit of a candidate, and which of the root's items took it;
  * `visit`: a root item that needs more units takes the first lot that is left and that
    the chain accepts for it (`takeFirst`);
  * `greedy`: the root's items are visited in turn until as many units are placed as the
    order is for, or a whole round places none; `assigned` is what each item took then.
    `takeFirst_rel` says what taking a lot is to others who keep track of the lots.
-/
import Mathlib.Data.List.Forall2
import Matchbook.Proofs.Flow.Round
import Matchbook.Proofs.Search.Scan

namespace Matchbook

/-- The item of an order for one token that stands for it. -/
def LoadedOrder.unit? (o : LoadedOrder) : Option OrderItem :=
  o.items.find? fun i => decide (0 < i.quantity.toNat)

namespace Search

open Matchbook.Flow

/-- A unit, and the place of the root item that took it. -/
structure Lot where
  item : OrderItem
  taker : Option Nat

/-- How many lots the root item at this place took. -/
def held (j : Nat) (lots : List Lot) : Nat := lots.countP (·.taker == some j)

/-- How many lots were taken. -/
def taken (lots : List Lot) : Nat := lots.countP (·.taker.isSome)

/-- Gives the first lot that is left and accepted to the root item at this place. -/
def takeFirst (accepts : OrderItem → Bool) (j : Nat) : List Lot → Option (List Lot)
  | [] => none
  | lot :: lots =>
    if lot.taker.isNone && accepts lot.item then some ({ lot with taker := some j } :: lots)
    else (takeFirst accepts j lots).map (lot :: ·)

/-- A root item that needs more units takes one. -/
def visit (chain : Chain) (lots : List Lot) (r : Nat × OrderItem) : Option (List Lot) :=
  if held r.1 lots < r.2.quantity.toNat then takeFirst (chain.admits r.2) r.1 lots else none

/-- Visits the root items in turn until no more units are wanted or a whole round places
    none. -/
def rounds (chain : Chain) : (wanted : Nat) → (cycle : List (Nat × OrderItem)) → List Lot → List Lot
  | 0, _, lots => lots
  | wanted + 1, cycle, lots =>
    match goRound (visit chain lots) [] cycle with
    | none => lots
    | some (lots, cycle) => rounds chain wanted cycle lots

/-- Items with their places. -/
def numbered (items : List OrderItem) : List (Nat × OrderItem) :=
  (List.range items.length).zip items

/-- Gives the units of the line to the root's items. -/
def greedy (chain : Chain) (root : LoadedOrder) (line : List LoadedOrder) : List Lot :=
  rounds chain root.order.numItems.toNat (numbered root.items)
    ((line.filterMap LoadedOrder.unit?).map fun i => ⟨i, none⟩)

/-- Each root item with the items that it took, in the order of the line. -/
def assigned (roots : List OrderItem) (lots : List Lot) : List (OrderItem × List OrderItem) :=
  (numbered roots).map fun r => (r.2, (lots.filter (·.taker == some r.1)).map Lot.item)

/-! ## Taking a lot -/

theorem taken_of_none (units : List OrderItem) : taken (units.map fun i => ⟨i, none⟩) = 0 := by
  simp [taken, List.countP_map]

/-- What is taken is the first lot that is left and accepted. -/
theorem takeFirst_eq_some {accepts : OrderItem → Bool} {j : Nat} : ∀ {lots lots' : List Lot},
    takeFirst accepts j lots = some lots' →
      ∃ xs lot ys, lots = xs ++ lot :: ys ∧ lots' = xs ++ { lot with taker := some j } :: ys ∧
        lot.taker = none ∧ accepts lot.item = true ∧
          ∀ x ∈ xs, x.taker = none → accepts x.item = false
  | lot :: lots, lots', h => by
    rw [takeFirst] at h
    split at h
    · next hfirst =>
      obtain ⟨hfree, haccepts⟩ := Bool.and_eq_true_iff.1 hfirst
      obtain rfl := Option.some.inj h
      exact ⟨[], lot, lots, rfl, rfl, Option.isNone_iff_eq_none.1 hfree, haccepts,
        List.forall_mem_nil _⟩
    · next hfirst =>
      obtain ⟨rest, hrest, rfl⟩ := Option.map_eq_some_iff.1 h
      obtain ⟨xs, lot', ys, rfl, rfl, hfree, haccepts, hxs⟩ := takeFirst_eq_some hrest
      refine ⟨lot :: xs, lot', ys, rfl, rfl, hfree, haccepts, List.forall_mem_cons.2 ⟨?_, hxs⟩⟩
      intro hlot
      simpa [hlot] using hfirst

/-- Nothing is taken if no lot is left that is accepted. -/
theorem takeFirst_eq_none {accepts : OrderItem → Bool} {j : Nat} : ∀ {lots : List Lot},
    takeFirst accepts j lots = none → ∀ lot ∈ lots, lot.taker = none → accepts lot.item = false
  | [], _ => List.forall_mem_nil _
  | lot :: lots, h => by
    rw [takeFirst] at h
    split at h
    · cases h
    · next hfirst =>
      refine List.forall_mem_cons.2 ⟨fun hlot => ?_, takeFirst_eq_none (Option.map_eq_none_iff.1 h)⟩
      simpa [hlot] using hfirst

theorem taken_takeFirst {accepts : OrderItem → Bool} {j : Nat} {lots lots' : List Lot}
    (h : takeFirst accepts j lots = some lots') : taken lots' = taken lots + 1 := by
  obtain ⟨xs, lot, ys, rfl, rfl, hfree, -, -⟩ := takeFirst_eq_some h
  simp only [taken, List.countP_append, List.countP_cons, hfree]
  simp
  omega

/-- A visit places one unit, if any. -/
theorem taken_visit {chain : Chain} {lots lots' : List Lot} {r : Nat × OrderItem}
    (h : visit chain lots r = some lots') : taken lots' = taken lots + 1 := by
  rw [visit] at h
  split at h
  · exact taken_takeFirst h
  · cases h

/-- If the lots correspond to things of which one can tell whether their lots are left and
    accepted, the lot of the first such thing is taken; the other lots stay. -/
theorem takeFirst_rel {σ : Type} {R : σ → Lot → Prop} (accepts : OrderItem → Bool)
    (available : σ → Bool) (j : Nat) {things : List σ} {lots : List Lot}
    (h : List.Forall₂ R things lots) (hnodup : things.Nodup)
    (havailable : ∀ {s lot}, s ∈ things → R s lot →
      available s = (lot.taker.isNone && accepts lot.item)) :
    Option.Rel (fun s lots' => ∀ {R' : σ → Lot → Prop},
        (∀ {lot}, R s lot → lot.taker = none → R' s { lot with taker := some j }) →
          (∀ {s' lot}, s' ∈ things → s' ≠ s → R s' lot → R' s' lot) → List.Forall₂ R' things lots')
      (things.find? available) (takeFirst accepts j lots) := by
  induction h with
  | nil => exact .none
  | @cons s lot things lots hs hrest ih =>
    obtain ⟨hnew, hnodup⟩ := List.nodup_cons.1 hnodup
    have hfirst := havailable List.mem_cons_self hs
    have ih := ih hnodup fun hmem => havailable (List.mem_cons_of_mem _ hmem)
    rw [List.find?_cons, takeFirst]
    cases ha : available s with
    | true =>
      rw [hfirst] at ha
      rw [if_pos ha]
      refine .some fun htake hkeep => .cons (htake hs ?_) ?_
      · exact Option.isNone_iff_eq_none.1 (Bool.and_eq_true_iff.1 ha).1
      · have hother : ∀ s' ∈ things, s' ∈ s :: things ∧ s' ≠ s := fun s' hs' =>
          ⟨List.mem_cons_of_mem _ hs', fun heq => hnew (heq ▸ hs')⟩
        exact ((List.forall₂_and_left _ _).2 ⟨hother, hrest⟩).imp fun _ _ ⟨⟨hs', hne⟩, hR⟩ =>
          hkeep hs' hne hR
    | false =>
      rw [hfirst] at ha
      rw [if_neg (Bool.not_eq_true _ ▸ ha)]
      cases hf : things.find? available with
      | none =>
        rw [hf] at ih
        generalize takeFirst accepts j lots = o at ih ⊢
        cases ih
        exact .none
      | some s' =>
        rw [hf] at ih
        generalize takeFirst accepts j lots = o at ih ⊢
        cases ih with
        | some htaken =>
          have hne : s ≠ s' := fun heq => hnew (heq ▸ List.mem_of_find?_eq_some hf)
          exact .some fun htake hkeep => .cons (hkeep List.mem_cons_self hne hs)
            (htaken htake fun hs' => hkeep (List.mem_cons_of_mem _ hs'))

end Search
end Matchbook
