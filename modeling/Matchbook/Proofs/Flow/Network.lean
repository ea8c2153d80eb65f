/-
  Networks: a graph with the collections that were made in it, and what can be
  done to them.

  * `Action` is one operation with its arguments, whatever they are;
  * `Network.step` performs an action and tells how it ended (`Answer`); an
    operation that is refused leaves behind what it leaves behind;
  * `Network.run` performs a list of actions on the network without nodes:
    the networks of this form are the reachable ones;
  * `run_induction` carries an invariant along a run.
-/
import Matchbook.Proofs.Flow.Graph

namespace Matchbook.Flow

variable {α β : Type}

/-- A graph with its collections, each at the place of its key. -/
structure Network (α β : Type) where
  graph : Graph α
  collections : List (Collection β)

/-- An operation on a network. -/
inductive Action (α β : Type) where
  | addNode (data : α) (capacity : Nat) (isSink : Bool)
  | link (a b : NodeKey)
  | unlink (node : NodeKey)
  | push (edge : EdgeKey)
  /-- Makes a new collection. -/
  | collect (data : β) (maxFlow : Nat)
  | add (collection : CollectionId) (node : NodeKey)
  | remove (collection : CollectionId) (node : NodeKey)
  /-- One step of the stream of a collection. -/
  | stream (collection : CollectionId)

/-- How an action ends. -/
inductive Answer where
  | done
  | refused (failure : Failure)
  /-- There is no such collection. -/
  | absent
  deriving DecidableEq

/-- The answer of an operation, without its result. -/
def Answer.of {γ : Type} : Except Failure γ → Answer
  | .ok _ => done
  | .error failure => refused failure

namespace Network

/-- The network without nodes. -/
def empty : Network α β := ⟨.empty, []⟩

/-- Performs an operation on the collection of this key, if there is one. -/
def onCollection (w : Network α β) (i : CollectionId)
    (operation : Collection β → Graph α → Answer × Collection β × Graph α) : Answer × Network α β :=
  match w.collections[i]? with
  | none => (.absent, w)
  | some c =>
    let (answer, c, g) := operation c w.graph
    (answer, ⟨g, w.collections.set i c⟩)

theorem onCollection_cases (w : Network α β) (i : CollectionId)
    (operation : Collection β → Graph α → Answer × Collection β × Graph α) :
    (w.collections[i]? = none ∧ w.onCollection i operation = (.absent, w)) ∨
      ∃ c, w.collections[i]? = some c ∧ w.onCollection i operation = ((operation c w.graph).1,
        ⟨(operation c w.graph).2.2, w.collections.set i (operation c w.graph).2.1⟩) := by
  unfold onCollection
  cases w.collections[i]? with
  | none => exact Or.inl ⟨rfl, rfl⟩
  | some c => exact Or.inr ⟨c, rfl, rfl⟩

/-- Performs an action. -/
def step (w : Network α β) : Action α β → Answer × Network α β
  | .addNode data capacity isSink =>
    (.done, { w with graph := w.graph.addNode data capacity isSink })
  | .link a b => (.of (w.graph.link a b).1, { w with graph := (w.graph.link a b).2 })
  | .unlink node => (.of (w.graph.unlink node).1, { w with graph := (w.graph.unlink node).2 })
  | .push edge => (.of (w.graph.pushUnit edge).1, { w with graph := (w.graph.pushUnit edge).2 })
  | .collect data maxFlow =>
    let (c, g) := w.graph.newCollection data maxFlow
    (.done, ⟨g, w.collections ++ [c]⟩)
  | .add i node => w.onCollection i fun c g => ((c.add g node).1 |> .of, (c.add g node).2)
  | .remove i node => w.onCollection i fun c g => ((c.remove g node).1 |> .of, (c.remove g node).2)
  | .stream i => w.onCollection i fun c g => (.done, (c.next g).2)

/-- The network after some actions. -/
def after (w : Network α β) (actions : List (Action α β)) : Network α β :=
  actions.foldl (fun w a => (w.step a).2) w

/-- The network that some actions make out of nothing. -/
def run (actions : List (Action α β)) : Network α β := empty.after actions

theorem run_append (actions : List (Action α β)) (a : Action α β) :
    run (actions ++ [a]) = ((run actions).step a).2 := by
  simp [run, after, List.foldl_append]

/-- What every action keeps is kept by all of them. -/
theorem after_induction {P : Network α β → Prop} (step : ∀ w a, P w → P (w.step a).2) :
    ∀ (actions : List (Action α β)) {w : Network α β}, P w → P (w.after actions)
  | [], _, h => h
  | a :: actions, w, h => after_induction step actions (step w a h)

/-- What holds without nodes and is kept by every action holds after every run. -/
theorem run_induction {P : Network α β → Prop} (empty : P empty)
    (step : ∀ w a, P w → P (w.step a).2) (actions : List (Action α β)) : P (run actions) :=
  after_induction step actions empty

end Network
end Matchbook.Flow
