/-
  Texts in order, and each once.

  * `sortTexts_perm`: a list of texts has one order, however it came;
  * `eraseReps_cons_cons` is how repetitions in a row are dropped; nothing else is
    (`mem_eraseReps`), and in a sorted list no other repetition is left
    (`pairwise_lt_eraseReps`).
-/
import Mathlib.Data.List.Sort
import Mathlib.Data.String.Basic

namespace Matchbook

/-! ## Sorting -/

/-- Texts have one order, however they come. -/
theorem sortTexts_perm {texts texts' : List String} (h : texts.Perm texts') :
    texts.mergeSort (fun a b => decide (a ≤ b)) = texts'.mergeSort fun a b => decide (a ≤ b) := by
  refine List.Perm.eq_of_pairwise (fun a b _ _ => String.le_antisymm)
    (List.pairwise_mergeSort' (· ≤ ·) texts) (List.pairwise_mergeSort' (· ≤ ·) texts') ?_
  exact (List.mergeSort_perm _ _).trans (h.trans (List.mergeSort_perm _ _).symm)

/-! ## Repetitions -/

section Repetitions

variable {α : Type}

/-- What has been put aside comes first. -/
theorem eraseRepsBy_loop [BEq α] (a : α) (l acc : List α) :
    List.eraseRepsBy.loop (· == ·) a l acc =
      acc.reverse ++ List.eraseRepsBy.loop (· == ·) a l [] := by
  induction l generalizing a acc with
  | nil => simp [List.eraseRepsBy.loop]
  | cons b l ih =>
    unfold List.eraseRepsBy.loop
    split
    · exact ih a acc
    · rw [ih b (a :: acc), ih b [a]]
      simp

variable [DecidableEq α]

/-- Of two elements in a row the first one is kept, and the second one if it differs. -/
theorem eraseReps_cons_cons (a b : α) (l : List α) : (a :: b :: l).eraseReps =
    if a = b then (a :: l).eraseReps else a :: (b :: l).eraseReps := by
  show List.eraseRepsBy.loop (· == ·) a (b :: l) [] = _
  rw [List.eraseRepsBy.loop]
  split
  · next h =>
    rw [if_pos (eq_of_beq h)]
    rfl
  · next h =>
    rw [if_neg (ne_of_beq_false h), eraseRepsBy_loop]
    rfl

theorem mem_eraseReps {x : α} : ∀ {l : List α}, x ∈ l.eraseReps ↔ x ∈ l
  | [] => Iff.rfl
  | [_] => Iff.rfl
  | a :: b :: l => by
    rw [eraseReps_cons_cons]
    split
    · next h =>
      subst h
      rw [mem_eraseReps (l := a :: l)]
      simp
    · rw [List.mem_cons, mem_eraseReps (l := b :: l), ← List.mem_cons]

/-- Elements that are in order are so strictly, if those that come again are dropped. -/
theorem pairwise_lt_eraseReps [PartialOrder α] :
    ∀ {l : List α}, l.Pairwise (· ≤ ·) → l.eraseReps.Pairwise (· < ·)
  | [], _ => .nil
  | [a], _ => List.pairwise_singleton _ a
  | a :: b :: l, h => by
    obtain ⟨ha, hb⟩ := List.pairwise_cons.1 h
    rw [eraseReps_cons_cons]
    split
    · next heq =>
      subst heq
      exact pairwise_lt_eraseReps hb
    · next hne =>
      have hab : a < b := lt_of_le_of_ne (ha b List.mem_cons_self) hne
      refine List.pairwise_cons.2 ⟨fun c hc => ?_, pairwise_lt_eraseReps hb⟩
      rcases List.mem_cons.1 (mem_eraseReps.1 hc) with rfl | hc
      · exact hab
      · exact lt_of_lt_of_le hab ((List.pairwise_cons.1 hb).1 c hc)

end Repetitions

end Matchbook
