import SharedTree.Node.Basic

/-!
# Shapes

The shape of a node is the node without the handles: its kind, span, flags and payload, which of
its slots are filled, the spans of its rows, and the shapes of its children. Two nodes are alike
when they have the same shape, however often a handle occurs in them.
-/

namespace SharedTree

/-- A node without handles. -/
abbrev Shape : Type := Node Unit

variable {η θ : Type}

/-- A row of shapes without the handle of the row. -/
def Row.shape (r : Row η Shape) : Row Unit Shape := ⟨(), r.span, r.items⟩

namespace Node

/-- What is left of a node when handles are forgotten. -/
def shape : Node η → Shape :=
  fold fun _ s f k p fields => .mk () s f k p (fields.map id Row.shape)

/-- Two nodes are alike when their shapes agree. -/
def Alike (m : Node η) (n : Node θ) : Prop := m.shape = n.shape

end Node

/-- Two rows are alike when their spans agree and their elements are alike, one by one. -/
def Row.Alike (r : Row η (Node η)) (q : Row θ (Node θ)) : Prop :=
  r.span = q.span ∧ r.items.map Node.shape = q.items.map Node.shape

end SharedTree
