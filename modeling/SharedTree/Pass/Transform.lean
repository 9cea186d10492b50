import SharedTree.Handle
import SharedTree.Pass.Event

/-!
# Transforms

A transform is asked for each node that a pass visits, in a state of its own. It answers the node
itself to keep it, another node to replace it, or none to remove it; it can also break down with a
message, and it can report events.
-/

namespace SharedTree.Pass

/-- What a transform says about a node. -/
structure Reply (σ : Type) where
  /-- The answer, unless the transform breaks down. -/
  answer : Except String (Option SharedNode)
  state : σ
  events : List Event := []

/-- What is done with each node, in a state of type `σ`. -/
abbrev Transform (σ : Type) : Type := SharedNode → σ → Reply σ

namespace Transform

variable {σ : Type}

/-- Keeps every node. -/
def identity : Transform σ := fun n s => ⟨.ok (some n), s, []⟩

/-- A transform that depends on nothing but the node. -/
def ofFunction (f : SharedNode → Option SharedNode) : Transform σ := fun n s => ⟨.ok (f n), s, []⟩

/-- One call of a transform: what it was given and what it answered. -/
structure Call (σ : Type) where
  node : SharedNode
  before : σ
  answer : Except String (Option SharedNode)
  after : σ

/-- The same transform with a record of its calls in the state, the newest first. -/
def recorded (t : Transform σ) : Transform (σ × List (Call σ)) := fun n (s, calls) =>
  let r := t n s
  ⟨r.answer, (r.state, ⟨n, s, r.answer, r.state⟩ :: calls), r.events⟩

end Transform

end SharedTree.Pass
