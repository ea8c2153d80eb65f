/-
  Arenas: values behind keys that stay the same.  A key is the index of a slot;
  the slot that was freed last is filled first.

  * `Arena` holds the slots and the free keys, the last freed one first; that
    these are exactly the keys of empty slots is part of the type;
  * `get?`, `insert`, `erase` and `modify` are its operations, `nextKey` the key
    that the next insertion uses;
  * `get?_insert`, `get?_erase` and `get?_modify` say what they do to the values.
-/
namespace Matchbook.Flow

/-- Values behind keys. -/
structure Arena (α : Type) where
  slots : List (Option α)
  free : List Nat
  mem_free_iff : ∀ k, k ∈ free ↔ slots[k]? = some none
  free_nodup : free.Nodup

namespace Arena

variable {α : Type}

/-- The arena without values. -/
def empty : Arena α := ⟨[], [], by simp, by simp⟩

instance : Inhabited (Arena α) := ⟨empty⟩

/-- The value behind a key. -/
def get? (a : Arena α) (k : Nat) : Option α := a.slots[k]?.join

/-- The key of the next value. -/
def nextKey (a : Arena α) : Nat := a.free.headD a.slots.length

/-- The values with their keys, in the order of the keys. -/
def entries (a : Arena α) : List (Nat × α) :=
  a.slots.zipIdx.filterMap fun (slot, k) => slot.map fun x => (k, x)

/-- The number of values. -/
def size (a : Arena α) : Nat := a.slots.countP Option.isSome

theorem get?_eq_some_iff {a : Arena α} {k : Nat} {x : α} :
    a.get? k = some x ↔ a.slots[k]? = some (some x) := by
  simp [get?, Option.join_eq_some_iff]

/-- Puts a value behind `nextKey`. -/
def insert (a : Arena α) (x : α) : Arena α :=
  match h : a.free with
  | [] =>
    { slots := a.slots ++ [some x]
      free := []
      mem_free_iff := fun k => by
        have := a.mem_free_iff k
        rw [h] at this
        rw [List.getElem?_append]
        split
        · exact this
        · rename_i hk
          rcases Nat.eq_or_lt_of_le (Nat.le_of_not_lt hk) with rfl | hlt
          · simp
          · rw [List.getElem?_eq_none (by simp; omega)]; simp
      free_nodup := by simp }
  | k₀ :: rest =>
    { slots := a.slots.set k₀ (some x)
      free := rest
      mem_free_iff := fun k => by
        have hk := a.mem_free_iff k
        have hnd := a.free_nodup
        rw [h] at hk hnd
        rw [List.getElem?_set]
        split
        · subst k
          have := (List.nodup_cons.mp hnd).1
          split <;> simp [this]
        · rename_i hne
          rw [← hk, List.mem_cons]
          exact ⟨Or.inr, fun h => h.resolve_left (Ne.symm hne)⟩
      free_nodup := by
        have hnd := a.free_nodup
        rw [h] at hnd
        exact (List.nodup_cons.mp hnd).2 }

/-- Frees the slot of a key; a key without a value changes nothing. -/
def erase (a : Arena α) (k : Nat) : Arena α :=
  match h : a.slots[k]? with
  | some (some _) =>
    { slots := a.slots.set k none
      free := k :: a.free
      mem_free_iff := fun j => by
        have hk : k < a.slots.length := by
          rcases Nat.lt_or_ge k a.slots.length with hk | hk
          · exact hk
          · rw [List.getElem?_eq_none hk] at h; cases h
        rw [List.mem_cons, a.mem_free_iff, List.getElem?_set]
        split
        · subst j; simp [hk]
        · rename_i hne
          exact ⟨fun hj => hj.resolve_left (Ne.symm hne), Or.inr⟩
      free_nodup := by
        refine List.nodup_cons.mpr ⟨fun hk => ?_, a.free_nodup⟩
        rw [a.mem_free_iff, h] at hk
        cases hk }
  | _ => a

/-- Changes the value behind a key. -/
def modify (a : Arena α) (k : Nat) (f : α → α) : Arena α where
  slots := a.slots.modify k (Option.map f)
  free := a.free
  mem_free_iff j := by
    rw [a.mem_free_iff, List.getElem?_modify]
    split
    · cases a.slots[j]? with
      | none => simp
      | some s => cases s <;> simp
    · simp
  free_nodup := a.free_nodup

/-! ## What the operations do to the values -/

theorem get?_empty (k : Nat) : (empty : Arena α).get? k = none := by simp [get?, empty]

/-- The next key has no value yet. -/
theorem get?_nextKey (a : Arena α) : a.get? a.nextKey = none := by
  unfold nextKey
  cases h : a.free with
  | nil => simp [get?]
  | cons k rest =>
    have := (a.mem_free_iff k).mp (by simp [h])
    simp [get?, this]

theorem get?_insert (a : Arena α) (x : α) (k : Nat) :
    (a.insert x).get? k = if k = a.nextKey then some x else a.get? k := by
  unfold insert nextKey get?
  split
  · rename_i h
    simp only [h, List.headD_nil, List.getElem?_append]
    rcases Nat.lt_trichotomy k a.slots.length with hk | rfl | hk
    · simp [hk, Nat.ne_of_lt hk]
    · simp
    · rw [if_neg (by omega), if_neg (by omega), List.getElem?_eq_none (by simp; omega),
        List.getElem?_eq_none (by omega)]
  · rename_i k₀ rest h
    have hk₀ : k₀ < a.slots.length := by
      have := (a.mem_free_iff k₀).mp (by simp [h])
      rcases Nat.lt_or_ge k₀ a.slots.length with hk | hk
      · exact hk
      · rw [List.getElem?_eq_none hk] at this; cases this
    simp only [h, List.headD_cons, List.getElem?_set]
    by_cases hk : k = k₀
    · subst hk; simp [hk₀]
    · simp [hk, Ne.symm hk]

theorem get?_erase (a : Arena α) (k j : Nat) :
    (a.erase k).get? j = if j = k then none else a.get? j := by
  unfold erase get?
  split
  · rename_i x h
    simp only [List.getElem?_set]
    by_cases hj : j = k
    · subst hj; simp; split <;> simp
    · simp [hj, Ne.symm hj]
  · rename_i h
    by_cases hj : j = k
    · subst hj
      rw [if_pos rfl]
      cases hs : a.slots[j]? with
      | none => rfl
      | some s => cases s with
        | none => rfl
        | some x => exact absurd hs (h x)
    · simp [hj]

theorem get?_modify (a : Arena α) (k j : Nat) (f : α → α) :
    (a.modify k f).get? j = if j = k then (a.get? j).map f else a.get? j := by
  unfold modify get?
  simp only [List.getElem?_modify]
  by_cases hj : j = k
  · subst hj
    cases a.slots[j]? with
    | none => simp
    | some s => cases s <;> simp
  · simp [hj, Ne.symm hj]

end Arena
end Matchbook.Flow
