/-
  Computations that read a store.

  * `Returns x a`: whatever else `x` does, its answer is `a`; `Yields` says this of
    a part of a search, which may fail;
  * `Environment.Reads`: the reads of an environment give what is stored.  The
    environment of a store does, and so does the one that keeps a journal and lets
    no read fail.
-/
import Matchbook.Search.Run

namespace Matchbook

/-! ## Answers -/

section Answers

variable {m : Type → Type} [Monad m] {α β : Type}

/-- The computation always gives this answer. -/
def Returns (x : m α) (a : α) : Prop := (x >>= fun _ => pure a) = x

/-- The part of a search always gives this answer, or fails so. -/
def Yields {ε : Type} (x : ExceptT ε m α) (r : Except ε α) : Prop := Returns x.run r

variable [LawfulMonad m]

namespace Returns

theorem pure (a : α) : Returns (Pure.pure a : m α) a := by simp [Returns]

theorem unit (x : m Unit) : Returns x () := by simp [Returns]

theorem bind {x : m α} {a : α} {f : α → m β} {b : β} (hx : Returns x a) (hf : Returns (f a) b) :
    Returns (x >>= f) b := by
  have hxf : x >>= f = x >>= fun _ => f a := by
    calc x >>= f = (x >>= fun _ => Pure.pure a) >>= f := (congrArg (· >>= f) hx).symm
      _ = x >>= fun _ => f a := by simp
  rw [Returns, hxf, bind_assoc]
  congr 1
  funext _
  exact hf

end Returns

namespace Yields

variable {ε : Type}

theorem pure (a : α) : Yields (Pure.pure a : ExceptT ε m α) (.ok a) := Returns.pure (m := m) _

theorem throw (e : ε) : Yields (MonadExcept.throw e : ExceptT ε m α) (.error e) :=
  Returns.pure (m := m) _

theorem lift {x : m α} {a : α} (hx : Returns x a) :
    Yields (ExceptT.lift x : ExceptT ε m α) (.ok a) := by
  rw [Yields, ExceptT.run_lift, ← bind_pure_comp]
  exact hx.bind (.pure _)

theorem bind {x : ExceptT ε m α} {a : α} {f : α → ExceptT ε m β} {r : Except ε β}
    (hx : Yields x (.ok a)) (hf : Yields (f a) r) : Yields (x >>= f) r := by
  rw [Yields, ExceptT.run_bind]
  exact Returns.bind hx hf

theorem bind_error {x : ExceptT ε m α} {e : ε} {f : α → ExceptT ε m β}
    (hx : Yields x (.error e)) : Yields (x >>= f) (.error e) := by
  rw [Yields, ExceptT.run_bind]
  exact Returns.bind hx (.pure _)

/-- What comes after a part goes on with its answer, unless this is a failure. -/
theorem seq {x : ExceptT ε m α} {r : Except ε α} {f : α → ExceptT ε m β} {g : α → Except ε β}
    (hx : Yields x r) (hf : ∀ a, Yields (f a) (g a)) : Yields (x >>= f) (r >>= g) := by
  cases r with
  | error e => exact hx.bind_error
  | ok a => exact hx.bind (hf a)

end Yields

end Answers

/-- With a state, the answer is the same in all of them. -/
theorem returns_iff {σ α : Type} {x : StateM σ α} {a : α} :
    Returns x a ↔ ∀ s, (x.run s).1 = a := by
  constructor
  · intro h s
    rw [← h]
    rfl
  · intro h
    funext s
    exact Prod.ext (h s).symm rfl

/-! ## Environments -/

/-- The reads of the environment give what is stored. -/
structure Environment.Reads {m : Type → Type} [Monad m] (env : Environment m) (s : Store) :
    Prop where
  order : ∀ id, Returns (env.order id) (.ok (s.order? id))
  items : ∀ id, Returns (env.items id) (.ok (s.itemsOf id))
  query : ∀ q, Returns (env.query q) (s.find q)
  extent : env.extent = s.items.size

namespace Store

theorem environment_reads (s : Store) : s.environment.Reads s :=
  ⟨fun _ => .pure _, fun _ => .pure _, fun _ => .pure _, rfl⟩

theorem returns_recordRead {α : Type} (read : Read) {answer : StateM Journal (Except StoreError α)}
    {a : Except StoreError α} (h : Returns answer a) :
    Returns (recordRead .none read answer) a :=
  returns_iff.2 fun _ => returns_iff.1 h _

theorem recording_reads (s : Store) : (s.recording .none).Reads s where
  order id := returns_recordRead _ (.pure _)
  items id := returns_recordRead _ (.pure _)
  query q := by
    refine returns_recordRead _ ?_
    cases s.find q with
    | ok page => exact .bind (.unit _) (.pure _)
    | error e => exact .pure _
  extent := rfl

end Store
end Matchbook
