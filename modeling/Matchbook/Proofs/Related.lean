/-
  Lists whose elements are related pairwise.

  * `forall₂_imp_mem`, `forall₂_mem_right`, `forall₂_comp` and `nodup_map_of_forall₂` say
    what holds of the elements of such lists, and `countP_le_of_forall₂` how many there are;
  * `map_eq_map_iff_forall₂`: lists have the same values if their elements do;
  * `forall₂_find?` and `forall₂_mergeSort`: what a search in them finds is related, and
    they still are when they are sorted.
-/
import Mathlib.Data.List.Forall2

namespace Matchbook

variable {α β γ : Type} {R S : α → β → Prop} {xs : List α} {ys : List β}

/-! ## Their elements -/

/-- Elements may be related otherwise for what they are as elements. -/
theorem forall₂_imp_mem (h : List.Forall₂ R xs ys) (hRS : ∀ x ∈ xs, ∀ y ∈ ys, R x y → S x y) :
    List.Forall₂ S xs ys := by
  obtain ⟨hlength, hzip⟩ := List.forall₂_iff_zip.1 h
  refine List.forall₂_iff_zip.2 ⟨hlength, fun {x y} hxy => ?_⟩
  obtain ⟨hx, hy⟩ := List.of_mem_zip hxy
  exact hRS x hx y hy (hzip hxy)

theorem forall₂_mem_right (h : List.Forall₂ R xs ys) {y : β} (hy : y ∈ ys) : ∃ x ∈ xs, R x y := by
  induction h with
  | nil => cases hy
  | cons hxy _ ih =>
    rcases List.mem_cons.1 hy with rfl | hy
    · exact ⟨_, List.mem_cons_self, hxy⟩
    · obtain ⟨x, hx, hxy⟩ := ih hy
      exact ⟨x, List.mem_cons_of_mem _ hx, hxy⟩

/-- What is related to something that is related to other things is related to these. -/
theorem forall₂_comp {T : β → γ → Prop} {U : α → γ → Prop} {zs : List γ}
    (h : List.Forall₂ R xs ys) (h' : List.Forall₂ T ys zs) (hU : ∀ {x y z}, R x y → T y z → U x z) :
    List.Forall₂ U xs zs := by
  induction h generalizing zs with
  | nil =>
    cases h'
    exact .nil
  | cons hxy _ ih =>
    cases h' with
    | cons hyz hrest => exact .cons (hU hxy hyz) (ih hrest)

theorem nodup_map_of_forall₂ {f : β → γ}
    (hR : ∀ {x x' y y'}, R x y → R x' y' → f y = f y' → x = x') (h : List.Forall₂ R xs ys)
    (hxs : xs.Nodup) : (ys.map f).Nodup := by
  induction h with
  | nil => exact List.nodup_nil
  | @cons x y xs ys hxy hrest ih =>
    obtain ⟨hx, hxs⟩ := List.nodup_cons.1 hxs
    rw [List.map_cons, List.nodup_cons]
    refine ⟨fun hy => hx ?_, ih hxs⟩
    obtain ⟨y', hy', heq⟩ := List.mem_map.1 hy
    obtain ⟨x', hx', hxy'⟩ := forall₂_mem_right hrest hy'
    rw [hR hxy hxy' heq.symm]
    exact hx'

/-- If what counts of the one list counts of the other, this has as much of it. -/
theorem countP_le_of_forall₂ {p : α → Bool} {q : β → Bool} (h : List.Forall₂ R xs ys)
    (hpq : ∀ {x y}, R x y → p x = true → q y = true) : xs.countP p ≤ ys.countP q := by
  induction h with
  | nil => exact Nat.le_refl _
  | @cons x y xs ys hxy _ ih =>
    have hhead := hpq hxy
    rw [List.countP_cons, List.countP_cons]
    by_cases hp : p x = true
    · rw [if_pos hp, if_pos (hhead hp)]
      exact Nat.add_le_add_right ih 1
    · rw [if_neg hp]
      exact Nat.le_trans ih (Nat.le_add_right _ _)

theorem map_eq_map_iff_forall₂ {f : α → γ} {f' : β → γ} :
    xs.map f = ys.map f' ↔ List.Forall₂ (fun x y => f x = f' y) xs ys := by
  rw [← List.forall₂_eq_eq_eq, List.forall₂_map_left_iff, List.forall₂_map_right_iff]

/-! ## Searching and sorting -/

theorem forall₂_find? {p : α → Bool} {q : β → Bool} (hpq : ∀ {x y}, R x y → p x = q y)
    (h : List.Forall₂ R xs ys) : Option.Rel R (xs.find? p) (ys.find? q) := by
  induction h with
  | nil => exact .none
  | @cons x y xs ys hxy _ ih =>
    rw [List.find?_cons, List.find?_cons, hpq hxy]
    cases q y with
    | true => exact .some hxy
    | false => exact ih

/-- Lists that correspond still do so when they are sorted. -/
theorem forall₂_mergeSort {r : α → α → Bool} {s : β → β → Bool}
    (hrs : ∀ {x y x' y'}, R x y → R x' y' → r x x' = s y y') (h : List.Forall₂ R xs ys) :
    List.Forall₂ R (xs.mergeSort r) (ys.mergeSort s) := by
  obtain ⟨hlen, hzip⟩ := List.forall₂_iff_zip.1 h
  have hfst : ((xs.zip ys).mergeSort fun p q => r p.1 q.1).map Prod.fst = xs.mergeSort r := by
    rw [List.map_mergeSort (s := r) fun _ _ _ _ => rfl, List.map_fst_zip (Nat.le_of_eq hlen)]
  have hsnd : ((xs.zip ys).mergeSort fun p q => r p.1 q.1).map Prod.snd = ys.mergeSort s := by
    rw [List.map_mergeSort (s := s) fun p hp q hq => hrs (hzip hp) (hzip hq),
      List.map_snd_zip (Nat.le_of_eq hlen.symm)]
  rw [← hfst, ← hsnd, List.forall₂_map_left_iff, List.forall₂_map_right_iff, List.forall₂_same]
  intro p hp
  exact hzip (List.mem_mergeSort.1 hp)

end Matchbook
