import SharedTree.Proofs.Operation

/-!
# Relations that traversals keep

The visits of rows, of children and of all slots of a node are put together from the visits of nodes in the same way,
whatever these do. So a relation between computations that is kept by the few operations of which they consist
(`Compatible`) is kept by these traversals: if the visits of nodes are related, so are the visits of what holds the
nodes. A relation that is kept by all errors (`Congruence`) is one of them.
-/

namespace SharedTree.Pass

variable {σ τ : Type}

/-- A relation between computations for two callers that is kept by the operations of which traversals consist. -/
structure Compatible (R : {α : Type} → Run σ α → Run τ α → Prop) : Prop where
  pure {α : Type} (a : α) : R (pure a) (pure a)
  removed {α : Type} (parent : Kind) (label : String) :
    R (Run.fail (.requiredRemoved parent label) : Run σ α) (Run.fail (.requiredRemoved parent label))
  row (items : List SharedNode) (span : Span) :
    R (Run.build (Row.create items span)) (Run.build (Row.create items span))
  bind {α β : Type} {x : Run σ α} {y : Run τ α} {f : α → Run σ β} {g : α → Run τ β} (hx : R x y)
    (hf : ∀ a, R (f a) (g a)) : R (x >>= f) (y >>= g)

namespace Compatible

variable {R : {α : Type} → Run σ α → Run τ α → Prop} (c : Compatible R)
  {v : SharedNode → Run σ (Option SharedNode)} {w : SharedNode → Run τ (Option SharedNode)}
  (hv : ∀ n, R (v n) (w n))

include c hv

/-- The visits of elements. -/
theorem visitItems (items : List SharedNode) : R (visitItems v items) (visitItems w items) := by
  induction items with
  | nil => exact c.pure _
  | cons n rest ih => exact c.bind (hv n) fun _ => c.bind ih fun _ => c.pure _

/-- The visit of a row. -/
theorem visitRowWith (r : SharedRow) : R (visitRowWith v r) (visitRowWith w r) := by
  refine c.bind (c.visitItems hv r.items) fun changed => ?_
  cases changed with
  | none => exact c.pure _
  | some items => exact c.row items r.span

/-- The visit of what is in a slot. -/
theorem visitChild (parent : Kind) (label : String) {a : Arity} (d : Child SharedNode SharedRow a) :
    R (visitChild v parent label d) (visitChild w parent label d) := by
  cases d with
  | one n =>
    refine c.bind (hv n) fun answer => ?_
    cases answer with
    | none => exact c.removed _ _
    | some m => exact c.pure _
  | opt n =>
    cases n with
    | none => exact c.pure _
    | some n => exact c.bind (hv n) fun _ => c.pure _
  | row r => exact c.bind (c.visitRowWith hv r) fun _ => c.pure _
  | optRow r =>
    cases r with
    | none => exact c.pure _
    | some r => exact c.bind (c.visitRowWith hv r) fun _ => c.pure _

/-- The visits of all slots of a node. -/
theorem visitFields (parent : Kind) {ss : List Slot} (fs : Fields SharedNode SharedRow ss) :
    R (visitFields v parent fs) (visitFields w parent fs) := by
  induction fs with
  | nil => exact c.pure _
  | @cons s ss d rest ih => exact c.bind (c.visitChild hv parent s.label d) fun _ => c.bind ih fun _ => c.pure _

end Compatible

/-- A relation that is kept by all errors as well. -/
structure Congruence (R : {α : Type} → Run σ α → Run τ α → Prop) : Prop extends Compatible R where
  fail {α : Type} (e : PassError) : R (Run.fail e : Run σ α) (Run.fail e)
  removed parent label := fail (.requiredRemoved parent label)

end SharedTree.Pass
