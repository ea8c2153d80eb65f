/-
  What a store holds, told by the calls that wrote to it.

  * `Write` is a call, `Store.writes` performs some in turn;
  * `StandsIn`: an element of a list that nothing behind it undoes; `OrderStands` and
    `ItemStands` say this of the orders and items of a history;
  * `mem_orders_write` and `mem_items_write` say what a single call does;
  * `writes_remembered`: the reads of a store answer what its history says.
-/
import Mathlib.Data.Finset.Card
import Mathlib.Data.List.Induction
import Matchbook.Store.Basic

namespace Matchbook

/-! ## Calls -/

/-- A change of a store. -/
inductive Write where
  | insert (order : Order) (items : List OrderItem)
  | remove (orderId : String)

/-- The store behind a change. -/
def Store.write (s : Store) : Write → Store
  | .insert order items => s.insert order items
  | .remove orderId => (s.remove orderId).2

/-- The store behind some changes. -/
def Store.writes (s : Store) (changes : List Write) : Store := changes.foldl write s

theorem Store.writes_concat (s : Store) (ws : List Write) (w : Write) :
    s.writes (ws ++ [w]) = (s.writes ws).write w := by
  rw [writes, List.foldl_append]
  rfl

/-- The id of the order that a call names. -/
def Write.orderId : Write → String
  | insert order _ => order.id
  | remove orderId => orderId

/-- The items that a call writes, in this order. -/
def Write.items : Write → List OrderItem
  | insert _ items => items
  | remove _ => []

/-! ## What a history leaves -/

/-- `x` is in the list, and everything behind it there lets it stand. -/
def StandsIn {γ : Type} (lets : γ → Prop) (x : γ) (l : List γ) : Prop :=
  ∃ before after, l = before ++ x :: after ∧ ∀ y ∈ after, lets y

theorem not_standsIn_nil {γ : Type} {lets : γ → Prop} {x : γ} : ¬ StandsIn lets x [] := by
  rintro ⟨before, after, hl, -⟩
  simp at hl

/-- Another element at the end is the one that stands, or lets the one stand that did. -/
theorem standsIn_concat {γ : Type} {lets : γ → Prop} {x y : γ} {l : List γ} :
    StandsIn lets x (l ++ [y]) ↔ y = x ∨ lets y ∧ StandsIn lets x l := by
  constructor
  · rintro ⟨before, after, hl, hafter⟩
    rcases List.eq_nil_or_concat' after with rfl | ⟨after, z, rfl⟩
    · exact Or.inl (List.cons.inj (List.append_inj' hl rfl).2).1
    · have hsplit : l ++ [y] = (before ++ x :: after) ++ [z] := by simpa using hl
      obtain ⟨rfl, hz⟩ := List.append_inj' hsplit rfl
      obtain rfl : y = z := (List.cons.inj hz).1
      obtain ⟨hrest, hy⟩ := List.forall_mem_append.1 hafter
      exact Or.inr ⟨hy y List.mem_cons_self, before, after, rfl, hrest⟩
  · rintro (rfl | ⟨hy, before, after, rfl, hafter⟩)
    · exact ⟨l, [], rfl, nofun⟩
    · refine ⟨before, after ++ [y], by simp, ?_⟩
      exact List.forall_mem_append.2 ⟨hafter, by simpa using hy⟩

/-- The last call that named the order inserted it like this. -/
def OrderStands (history : List Write) (order : Order) : Prop :=
  ∃ items, StandsIn (·.orderId ≠ order.id) (.insert order items) history

/-- The last item of this id in the last call that wrote one was this item, and no later
    call named its order. -/
def ItemStands (history : List Write) (item : OrderItem) : Prop :=
  ∃ w, StandsIn (fun w => (∀ j ∈ w.items, j.id ≠ item.id) ∧ w.orderId ≠ item.orderId) w history ∧
    StandsIn (·.id ≠ item.id) item w.items

theorem orderStands_concat {ws : List Write} {w : Write} {order : Order} :
    OrderStands (ws ++ [w]) order ↔
      (∃ items, w = .insert order items) ∨ w.orderId ≠ order.id ∧ OrderStands ws order := by
  simp only [OrderStands, standsIn_concat, exists_or, exists_and_left]

theorem itemStands_concat {ws : List Write} {w : Write} {item : OrderItem} :
    ItemStands (ws ++ [w]) item ↔ StandsIn (·.id ≠ item.id) item w.items ∨
      ((∀ j ∈ w.items, j.id ≠ item.id) ∧ w.orderId ≠ item.orderId) ∧ ItemStands ws item := by
  simp only [ItemStands, standsIn_concat, or_and_right, exists_or, exists_eq_left', and_assoc,
    exists_and_left]

/-! ## What a call does -/

/-- A table has as many rows as keys. -/
theorem Table.exists_keys {α : Type} {key : α → String} (t : Table key) :
    ∃ keys : Finset String, (∀ k, k ∈ keys ↔ ∃ x ∈ t.rows, key x = k) ∧ t.size = keys.card := by
  have hnodup : (t.rows.map key).Nodup :=
    List.pairwise_map.2 (t.sorted.imp fun hlt => String.ne_of_lt hlt)
  refine ⟨(t.rows.map key).toFinset, fun k => by simp, ?_⟩
  rw [List.toFinset_card_of_nodup hnodup, List.length_map, Table.size]

namespace Store

theorem orders_foldl_putItem (items : List OrderItem) (s : Store) :
    (items.foldl putItem s).orders = s.orders := by
  induction items generalizing s with
  | nil => rfl
  | cons i items ih => exact ih (s.putItem i)

/-- An item stands among those that are written, or is left alone by them. -/
theorem mem_items_foldl_putItem {items : List OrderItem} {s : Store} {i : OrderItem} :
    i ∈ (items.foldl putItem s).items.rows ↔
      StandsIn (·.id ≠ i.id) i items ∨ (∀ j ∈ items, j.id ≠ i.id) ∧ i ∈ s.items.rows := by
  induction items using List.reverseRecOn with
  | nil => simp [not_standsIn_nil]
  | append_singleton items j ih =>
    have hput : i ∈ ((items ++ [j]).foldl putItem s).items.rows ↔
        i = j ∨ i ∈ (items.foldl putItem s).items.rows ∧ i.id ≠ j.id := by
      rw [List.foldl_append]
      exact Table.mem_insert_iff
    rw [hput, ih, standsIn_concat, List.forall_mem_append, List.forall_mem_singleton]
    grind

theorem mem_items_dropItems {s : Store} {orderId : String} {i : OrderItem} :
    i ∈ (s.dropItems orderId).items.rows ↔ i ∈ s.items.rows ∧ i.orderId ≠ orderId := by
  rw [dropItems, Table.mem_keep_iff, bne_iff_ne]

/-- A call puts its order in the place of the one that it names. -/
theorem mem_orders_write {s : Store} {w : Write} {order : Order} :
    order ∈ (s.write w).orders.rows ↔
      (∃ items, w = .insert order items) ∨ w.orderId ≠ order.id ∧ order ∈ s.orders.rows := by
  cases w with
  | insert d items =>
    have horders : (s.write (.insert d items)).orders = s.orders.insert d :=
      congrArg (Table.insert · d) (orders_foldl_putItem items _)
    rw [horders, Table.mem_insert_iff]
    simp only [Write.insert.injEq, exists_and_left, exists_eq', and_true, Write.orderId]
    rw [eq_comm (a := d), ne_comm, and_comm (a := order ∈ _)]
  | remove orderId =>
    have horders : (s.write (.remove orderId)).orders = s.orders.erase orderId := rfl
    rw [horders, Table.mem_erase_iff]
    simp only [reduceCtorEq, exists_false, false_or, Write.orderId]
    rw [ne_comm, and_comm]

/-- A call drops the items of the order that it names, and then puts its own, one by one. -/
theorem mem_items_write {s : Store} {w : Write} {i : OrderItem} :
    i ∈ (s.write w).items.rows ↔ StandsIn (·.id ≠ i.id) i w.items ∨
      ((∀ j ∈ w.items, j.id ≠ i.id) ∧ w.orderId ≠ i.orderId) ∧ i ∈ s.items.rows := by
  have hwrite : (s.write w).items = (w.items.foldl putItem (s.dropItems w.orderId)).items := by
    cases w <;> rfl
  rw [hwrite, mem_items_foldl_putItem, mem_items_dropItems, ne_comm]
  grind

/-! ## What a run leaves -/

/-- The orders that are stored are those that stand. -/
theorem mem_orders_writes {ws : List Write} {order : Order} :
    order ∈ (empty.writes ws).orders.rows ↔ OrderStands ws order := by
  induction ws using List.reverseRecOn with
  | nil => exact iff_of_false List.not_mem_nil fun ⟨_, h⟩ => not_standsIn_nil h
  | append_singleton ws w ih => rw [writes_concat, mem_orders_write, ih, orderStands_concat]

/-- The items that are stored are those that stand. -/
theorem mem_items_writes {ws : List Write} {i : OrderItem} :
    i ∈ (empty.writes ws).items.rows ↔ ItemStands ws i := by
  induction ws using List.reverseRecOn with
  | nil => exact iff_of_false List.not_mem_nil fun ⟨_, h, _⟩ => not_standsIn_nil h
  | append_singleton ws w ih => rw [writes_concat, mem_items_write, ih, itemStands_concat]

/-- **A store remembers its history**: an order is read exactly if the last call that named
    it inserted it, and counted then; an item is stored exactly if it is the last of its id
    that was written and no later call named its order; the items of an order are the
    stored ones that name it, by id; and removing an order tells whether it was there. -/
theorem writes_remembered (history : List Write) :
    let s := empty.writes history
    (∀ o order, s.order? o = some order ↔ order.id = o ∧ OrderStands history order) ∧
      (∃ ids : Finset String, (∀ o, o ∈ ids ↔ ∃ order, order.id = o ∧ OrderStands history order) ∧
        s.orderCount = ids.card) ∧
      (∀ x i, s.items.get? x = some i ↔ i.id = x ∧ ItemStands history i) ∧
      (∀ o, (s.itemsOf o).Pairwise (fun a b => a.id < b.id) ∧
        ∀ i, i ∈ s.itemsOf o ↔ i.orderId = o ∧ ItemStands history i) ∧
      ∀ o, (s.remove o).1 = true ↔ ∃ order, s.order? o = some order := by
  intro s
  refine ⟨fun o order => ?_, ?_, fun x i => ?_, fun o => ⟨s.items.sorted.filter _, fun i => ?_⟩,
    fun o => Option.isSome_iff_exists⟩
  · rw [order?, Table.get?_eq_some_iff, mem_orders_writes, and_comm]
  · obtain ⟨ids, hids, hcount⟩ := s.orders.exists_keys
    refine ⟨ids, fun o => ?_, hcount⟩
    rw [hids]
    exact exists_congr fun order => by rw [mem_orders_writes, and_comm]
  · rw [Table.get?_eq_some_iff, mem_items_writes, and_comm]
  · rw [itemsOf, List.mem_filter, beq_iff_eq, mem_items_writes, and_comm]

end Store
end Matchbook
