/-
  Tables: rows with a key each, at most one row to a key, in the order of the
  keys.

  * `Table key` holds rows whose keys increase strictly;
  * `get?` finds the row of a key, `insert` adds or replaces one, `keep` drops
    the rows that fail a test, `erase` the row of a key;
  * `mem_insert_iff`, `mem_keep_iff`, `mem_erase_iff` and `get?_eq_some_iff` say
    which rows there are then.
-/
namespace Matchbook

/-- Rows in the strictly increasing order of their keys. -/
structure Table {α : Type} (key : α → String) where
  rows : List α
  sorted : rows.Pairwise (fun a b => key a < key b)

namespace Table

variable {α : Type} {key : α → String}

/-- The table without rows. -/
def empty : Table key := ⟨[], .nil⟩

instance : Inhabited (Table key) := ⟨empty⟩

/-- The number of rows. -/
def size (t : Table key) : Nat := t.rows.length

/-- The row of a key. -/
def get? (t : Table key) (k : String) : Option α := t.rows.find? (key · == k)

/-! ## Adding rows -/

/-- Puts a row into its place, instead of one of the same key. -/
def insertRow (key : α → String) (row : α) : List α → List α
  | [] => [row]
  | x :: xs =>
    if key row < key x then row :: x :: xs
    else if key row = key x then row :: xs
    else x :: insertRow key row xs

theorem mem_insertRow {row y : α} {xs : List α} (h : y ∈ insertRow key row xs) :
    y = row ∨ y ∈ xs := by
  induction xs with
  | nil => simpa [insertRow] using h
  | cons x xs ih =>
    unfold insertRow at h
    split at h
    · simpa using h
    · split at h
      · rcases List.mem_cons.mp h with h | h
        · exact .inl h
        · exact .inr (List.mem_cons_of_mem _ h)
      · rcases List.mem_cons.mp h with h | h
        · exact .inr (h ▸ List.mem_cons_self)
        · exact (ih h).imp_right (List.mem_cons_of_mem _)

theorem pairwise_insertRow (row : α) {xs : List α}
    (h : xs.Pairwise (fun a b => key a < key b)) :
    (insertRow key row xs).Pairwise (fun a b => key a < key b) := by
  induction xs with
  | nil => simp [insertRow]
  | cons x xs ih =>
    have hx := (List.pairwise_cons.mp h).1
    have hxs := (List.pairwise_cons.mp h).2
    unfold insertRow
    split
    · rename_i hlt
      refine List.pairwise_cons.mpr ⟨fun y hy => ?_, h⟩
      rcases List.mem_cons.mp hy with rfl | hy
      · exact hlt
      · exact String.lt_trans hlt (hx y hy)
    · split
      · rename_i heq
        exact List.pairwise_cons.mpr ⟨fun y hy => heq ▸ hx y hy, hxs⟩
      · refine List.pairwise_cons.mpr ⟨fun y hy => ?_, ih hxs⟩
        rcases mem_insertRow hy with rfl | hy
        · grind
        · exact hx y hy

/-- Adds a row, or replaces the one of the same key. -/
def insert (t : Table key) (row : α) : Table key :=
  ⟨insertRow key row t.rows, pairwise_insertRow row t.sorted⟩

/-! ## Dropping rows -/

/-- The rows that pass a test. -/
def keep (t : Table key) (test : α → Bool) : Table key :=
  ⟨t.rows.filter test, t.sorted.filter _⟩

/-- The table without the row of a key. -/
def erase (t : Table key) (k : String) : Table key := t.keep (key · != k)

/-! ## Which rows there are -/

theorem mem_keep_iff {t : Table key} {test : α → Bool} {x : α} :
    x ∈ (t.keep test).rows ↔ x ∈ t.rows ∧ test x = true := List.mem_filter

theorem mem_erase_iff {t : Table key} {k : String} {x : α} :
    x ∈ (t.erase k).rows ↔ x ∈ t.rows ∧ key x ≠ k := by
  simp [erase, mem_keep_iff]

theorem mem_insertRow_iff {row x : α} {xs : List α}
    (h : xs.Pairwise (fun a b => key a < key b)) :
    x ∈ insertRow key row xs ↔ x = row ∨ (x ∈ xs ∧ key x ≠ key row) := by
  induction xs with
  | nil => simp [insertRow]
  | cons y ys ih =>
    have hy := (List.pairwise_cons.mp h).1
    have hys := (List.pairwise_cons.mp h).2
    unfold insertRow
    split
    · rename_i hlt
      have hne : ∀ z ∈ ys, key z ≠ key row := fun z hz => by
        have := hy z hz; intro he; rw [he] at this
        exact String.lt_irrefl _ (String.lt_trans hlt this)
      have hne' : key y ≠ key row := fun he => String.lt_irrefl _ (he ▸ hlt)
      simp only [List.mem_cons]
      grind
    · split
      · rename_i heq
        have hne : ∀ z ∈ ys, key z ≠ key row := fun z hz he => by
          have := hy z hz; rw [← heq, he] at this; exact String.lt_irrefl _ this
        simp only [List.mem_cons]
        grind
      · rename_i hne
        simp only [List.mem_cons, ih hys]
        grind

theorem mem_insert_iff {t : Table key} {row x : α} :
    x ∈ (t.insert row).rows ↔ x = row ∨ (x ∈ t.rows ∧ key x ≠ key row) :=
  mem_insertRow_iff t.sorted

/-- Two rows of one key are the same row. -/
theorem eq_of_key_eq {t : Table key} {x y : α} (hx : x ∈ t.rows) (hy : y ∈ t.rows)
    (h : key x = key y) : x = y := by
  have hs := t.sorted
  generalize t.rows = rows at hx hy hs
  induction rows with
  | nil => cases hx
  | cons z zs ih =>
    have hz := (List.pairwise_cons.mp hs).1
    have hzs := (List.pairwise_cons.mp hs).2
    rcases List.mem_cons.mp hx with hx' | hx' <;> rcases List.mem_cons.mp hy with hy' | hy'
    · rw [hx', hy']
    · exact absurd (hz y hy') (by rw [← hx', h]; exact String.lt_irrefl _)
    · exact absurd (hz x hx') (by rw [← hy', ← h]; exact String.lt_irrefl _)
    · exact ih hx' hy' hzs

theorem get?_eq_some_iff {t : Table key} {k : String} {x : α} :
    t.get? k = some x ↔ x ∈ t.rows ∧ key x = k := by
  constructor
  · intro h
    exact ⟨List.mem_of_find?_eq_some h, by simpa using List.find?_some h⟩
  · rintro ⟨hx, rfl⟩
    cases h : t.get? (key x) with
    | none => simpa using List.find?_eq_none.mp h x hx
    | some y =>
      have hy := List.mem_of_find?_eq_some h
      have hk : key y = key x := by simpa using List.find?_some h
      rw [eq_of_key_eq hy hx hk]

end Table
end Matchbook
