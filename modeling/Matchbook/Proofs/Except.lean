/-
  Computations that may fail.

  * `bind_eq_ok` takes a computation apart that succeeds, and `toOption_eq_some_iff`
    and `toOption_map_eq_some_iff` leave it to be evaluated;
  * `mapM_eq_ok_iff`: a computation succeeds for a list if it does for each of its
    elements, and then it does in any order (`mapM_eq_ok_perm`); `mem_mapM_iff` says
    what it gives;
  * `exists_of_anyM`, `forall_of_anyM`: what a search for an element that satisfies
    a computed condition says;
  * `FailsOnly E`: a computation fails in no way but those of `E`, as its parts do.
-/
namespace Matchbook

variable {ε α β : Type}

theorem ok_bind (a : α) (f : α → Except ε β) : (Except.ok a >>= f) = f a := rfl

theorem error_bind (e : ε) (f : α → Except ε β) : (Except.error e >>= f) = .error e := rfl

/-- Only how a computation goes on after a success counts. -/
theorem bind_congr_of_ok {x : Except ε α} {f g : α → Except ε β}
    (h : ∀ a, x = .ok a → f a = g a) : (x >>= f) = (x >>= g) := by
  cases x with
  | error e => rfl
  | ok a => exact h a rfl

theorem bind_eq_ok {x : Except ε α} {f : α → Except ε β} {b : β} :
    (x >>= f) = .ok b ↔ ∃ a, x = .ok a ∧ f a = .ok b := by
  cases x with
  | error e => simp [error_bind]
  | ok a => simp [ok_bind]

theorem pure_eq_ok {a b : α} : (pure a : Except ε α) = .ok b ↔ a = b := by
  simp [pure, Except.pure]

theorem mapError_eq_ok {ε' : Type} {f : ε → ε'} {x : Except ε α} {a : α} :
    x.mapError f = .ok a ↔ x = .ok a := by
  cases x with
  | error e => exact ⟨nofun, nofun⟩
  | ok b =>
    show Except.ok b = _ ↔ _
    rw [Except.ok.injEq, Except.ok.injEq]

theorem toOption_eq_some_iff {x : Except ε α} {a : α} : x.toOption = some a ↔ x = .ok a := by
  cases x <;> simp [Except.toOption]

theorem toOption_map_eq_some_iff {x : Except ε α} {f : α → β} {b : β} :
    (x.map f).toOption = some b ↔ ∃ a, x = .ok a ∧ f a = b := by
  cases x <;> simp [Except.toOption, Except.map]

/-- A computation succeeds for a list if it does for each element; `d` stands in
    where it does not. -/
theorem mapM_eq_ok_iff {f : α → Except ε β} {l : List α} {ys : List β} (d : β) :
    l.mapM f = .ok ys ↔ (∀ x ∈ l, f x = .ok ((f x).toOption.getD d)) ∧
      ys = l.map fun x => (f x).toOption.getD d := by
  induction l generalizing ys with
  | nil =>
    rw [List.mapM_nil, pure_eq_ok]
    exact ⟨fun h => ⟨nofun, h.symm⟩, fun h => h.2.symm⟩
  | cons x l ih =>
    simp only [List.mapM_cons, bind_eq_ok, pure_eq_ok, ih, List.forall_mem_cons, List.map_cons]
    constructor
    · rintro ⟨y, hy, zs, ⟨hl, rfl⟩, rfl⟩
      rw [hy]
      exact ⟨⟨rfl, hl⟩, rfl⟩
    · rintro ⟨⟨hx, hl⟩, rfl⟩
      exact ⟨_, hx, _, ⟨hl, rfl⟩, rfl⟩

theorem exists_mapM_of_forall {f : α → Except ε β} {l : List α} (h : ∀ x ∈ l, ∃ y, f x = .ok y) :
    ∃ ys, l.mapM f = .ok ys := by
  induction l with
  | nil => exact ⟨[], rfl⟩
  | cons x l ih =>
    obtain ⟨y, hy⟩ := h x List.mem_cons_self
    obtain ⟨ys, hys⟩ := ih fun x hx => h x (List.mem_cons_of_mem _ hx)
    exact ⟨y :: ys, by rw [List.mapM_cons, hy, hys]; rfl⟩

theorem mem_mapM_iff {f : α → Except ε β} {l : List α} {ys : List β} (h : l.mapM f = .ok ys)
    {y : β} : y ∈ ys ↔ ∃ x ∈ l, f x = .ok y := by
  obtain ⟨hall, rfl⟩ := (mapM_eq_ok_iff y).1 h
  rw [List.mem_map]
  refine exists_congr fun x => and_congr_right fun hx => ?_
  rw [hall x hx]
  exact (Except.ok.injEq _ _ ▸ Iff.rfl)

/-- In another order a computation gives the same values. -/
theorem mapM_eq_ok_perm {f : α → Except ε β} {l l' : List α} {ys : List β} (d : β)
    (h : l.mapM f = .ok ys) (hl : l.Perm l') :
    l'.mapM f = .ok (l'.map fun x => (f x).toOption.getD d) :=
  (mapM_eq_ok_iff d).2 ⟨fun x hx => ((mapM_eq_ok_iff d).1 h).1 x (hl.mem_iff.2 hx), rfl⟩

theorem exists_of_anyM {f : α → Except ε Bool} {l : List α} (h : l.anyM f = .ok true) :
    ∃ x ∈ l, f x = .ok true := by
  induction l with
  | nil => cases h
  | cons x l ih =>
    obtain ⟨b, hb, h⟩ := bind_eq_ok.1 h
    cases b with
    | true => exact ⟨x, List.mem_cons_self, hb⟩
    | false =>
      obtain ⟨y, hy, hfy⟩ := ih h
      exact ⟨y, List.mem_cons_of_mem _ hy, hfy⟩

theorem forall_of_anyM {f : α → Except ε Bool} {l : List α}
    (h : l.anyM f = .ok false) : ∀ x ∈ l, f x = .ok false := by
  induction l with
  | nil => exact nofun
  | cons x l ih =>
    obtain ⟨b, hb, h⟩ := bind_eq_ok.1 h
    cases b with
    | true => cases h
    | false => exact List.forall_mem_cons.2 ⟨hb, ih h⟩

/-! ## How a computation fails -/

/-- The computation fails with such errors only. -/
def FailsOnly (E : ε → Prop) (x : Except ε α) : Prop := ∀ e, x = .error e → E e

namespace FailsOnly

variable {E : ε → Prop}

theorem ok (a : α) : FailsOnly E (.ok a) := nofun

theorem error {e : ε} (h : E e) : FailsOnly E (.error e : Except ε α) := by
  rintro _ ⟨⟩
  exact h

theorem bind {x : Except ε α} {f : α → Except ε β} (hx : FailsOnly E x)
    (hf : ∀ a, x = .ok a → FailsOnly E (f a)) : FailsOnly E (x >>= f) := by
  cases x with
  | error e => exact error (hx e rfl)
  | ok a => exact hf a rfl

theorem mapM {f : α → Except ε β} {l : List α} (hf : ∀ a ∈ l, FailsOnly E (f a)) :
    FailsOnly E (l.mapM f) := by
  induction l with
  | nil => exact ok _
  | cons a l ih =>
    rw [List.mapM_cons]
    obtain ⟨ha, hl⟩ := List.forall_mem_cons.1 hf
    exact ha.bind fun _ _ => (ih hl).bind fun _ _ => ok _

theorem anyM {f : α → Except ε Bool} {l : List α} (hf : ∀ a ∈ l, FailsOnly E (f a)) :
    FailsOnly E (l.anyM f) := by
  induction l with
  | nil => exact ok _
  | cons a l ih =>
    obtain ⟨ha, hl⟩ := List.forall_mem_cons.1 hf
    refine ha.bind fun found _ => ?_
    cases found with
    | true => exact ok _
    | false => exact ih hl

/-- What fails in no way succeeds. -/
theorem exists_ok {x : Except ε α} (h : FailsOnly (fun _ => False) x) : ∃ a, x = .ok a := by
  cases x with
  | error e => exact (h e rfl).elim
  | ok a => exact ⟨a, rfl⟩

end FailsOnly

end Matchbook
