import SharedTree.Flags
import SharedTree.Schema
import SharedTree.Span
import SharedTree.Token

/-!
# Nodes

A node has a kind, and holds exactly what the schema of that kind asks for: a `Payload` with one
value for each attribute and `Fields` with one `Child` for each slot. The children of an array slot
form a `Row`, which has a span of its own.

Nodes and rows carry a handle of a type `η`. With `η` the type of `Handle`s two nodes are the same
when their handles are; with `η` the unit type what is left of a node is its shape.

* `Node.fold` reduces a tree from the leaves up, and `Node.fold_mk` is its one equation.
* `Node.induct` proves a property of all nodes from the children up.
-/

namespace SharedTree

/-- A value of a given sort. -/
inductive Datum : ValueSort → Type where
  | text (s : String) : Datum .text
  | token (t : Token) : Datum .token
  | keyword (k : TypeKeyword) : Datum .keyword
  | number (n : UInt32) : Datum .number
  | numbers (ns : List UInt32) : Datum .numbers

/-- One value for each attribute of a list. -/
inductive Payload : List Attribute → Type where
  | nil : Payload []
  | cons {a : Attribute} {as : List Attribute} (d : Datum a.sort) (rest : Payload as) :
      Payload (a :: as)

/-- What a slot of a given arity holds: `α` are the nodes and `ρ` the rows. -/
inductive Child (α ρ : Type) : Arity → Type where
  | one (a : α) : Child α ρ .one
  | opt (a : Option α) : Child α ρ .opt
  | row (r : ρ) : Child α ρ .row
  | optRow (r : Option ρ) : Child α ρ .optRow

/-- One child for each slot of a list. -/
inductive Fields (α ρ : Type) : List Slot → Type where
  | nil : Fields α ρ []
  | cons {s : Slot} {ss : List Slot} (c : Child α ρ s.arity) (rest : Fields α ρ ss) :
      Fields α ρ (s :: ss)

/-- An ordered sequence of children with a handle and a span of its own. -/
structure Row (η α : Type) where
  handle : η
  span : Span
  items : List α

/-- An immutable node of a tree. -/
inductive Node (η : Type) where
  | mk (handle : η) (span : Span) (flags : Flags) (kind : Kind) (payload : Payload kind.attributes)
      (fields : Fields (Node η) (Row η (Node η)) kind.slots)

/-! ### Maps -/

variable {α β ρ τ η θ : Type}

/-- The same row with every element replaced. -/
def Row.map (f : α → β) (r : Row η α) : Row η β := ⟨r.handle, r.span, r.items.map f⟩

/-- The same child with nodes replaced by `f` and rows by `g`. -/
def Child.map (f : α → β) (g : ρ → τ) : {a : Arity} → Child α ρ a → Child β τ a
  | _, .one a => .one (f a)
  | _, .opt a => .opt (a.map f)
  | _, .row r => .row (g r)
  | _, .optRow r => .optRow (r.map g)

/-- The same fields with nodes replaced by `f` and rows by `g`. -/
def Fields.map (f : α → β) (g : ρ → τ) : {ss : List Slot} → Fields α ρ ss → Fields β τ ss
  | _, .nil => .nil
  | _, .cons c rest => .cons (c.map f g) (rest.map f g)

/-! ### Maps with effects -/

section MapM

variable {m : Type → Type} [Monad m]

/-- The same child with nodes replaced by what `f` yields and rows by what `g` yields. -/
def Child.mapM (f : α → m β) (g : ρ → m τ) : {a : Arity} → Child α ρ a → m (Child β τ a)
  | _, .one a => return .one (← f a)
  | _, .opt none => return .opt none
  | _, .opt (some a) => return .opt (some (← f a))
  | _, .row r => return .row (← g r)
  | _, .optRow none => return .optRow none
  | _, .optRow (some r) => return .optRow (some (← g r))

/-- The same fields with nodes replaced by what `f` yields and rows by what `g` yields, in the order
of the slots. -/
def Fields.mapM (f : α → m β) (g : ρ → m τ) : {ss : List Slot} → Fields α ρ ss → m (Fields β τ ss)
  | _, .nil => return .nil
  | _, .cons c rest => return .cons (← c.mapM f g) (← rest.mapM f g)

end MapM

/-! ### The nodes below -/

/-- The nodes of a child, in order. -/
def Child.nodes : {a : Arity} → Child α (Row η α) a → List α
  | _, .one a => [a]
  | _, .opt a => a.toList
  | _, .row r => r.items
  | _, .optRow (some r) => r.items
  | _, .optRow none => []

/-- The nodes of all fields, in the order of the slots. -/
def Fields.nodes : {ss : List Slot} → Fields α (Row η α) ss → List α
  | _, .nil => []
  | _, .cons c rest => c.nodes ++ rest.nodes

namespace Node

/-- The identity of a node. -/
def handle : Node η → η
  | .mk h _ _ _ _ _ => h

/-- The offsets that a node covers. -/
def span : Node η → Span
  | .mk _ s _ _ _ _ => s

/-- The flags of a node. -/
def flags : Node η → Flags
  | .mk _ _ f _ _ _ => f

/-- The kind of a node. -/
def kind : Node η → Kind
  | .mk _ _ _ k _ _ => k

/-- The values that a node carries beside its children. -/
def payload : (n : Node η) → Payload n.kind.attributes
  | .mk _ _ _ _ p _ => p

/-- What is in the slots of a node. -/
def fields : (n : Node η) → Fields (Node η) (Row η (Node η)) n.kind.slots
  | .mk _ _ _ _ _ fs => fs

/-- The nodes directly below a node, in the order of its slots. -/
def children (n : Node η) : List (Node η) := n.fields.nodes

/-! ### Folding a tree -/

section Fold

variable (step : η → Span → Flags → (k : Kind) → Payload k.attributes →
  Fields β (Row η β) k.slots → β)

mutual

/-- The value of a node, made by `step` from its own parts and the values of its children. -/
def fold : Node η → β
  | .mk h s f k p fs => step h s f k p (foldFields fs)

/-- `fold` on fields. -/
def foldFields : {ss : List Slot} → Fields (Node η) (Row η (Node η)) ss → Fields β (Row η β) ss
  | _, .nil => .nil
  | _, .cons c rest => .cons (foldChild c) (foldFields rest)

/-- `fold` on a child. -/
def foldChild : {a : Arity} → Child (Node η) (Row η (Node η)) a → Child β (Row η β) a
  | _, .one n => .one (fold n)
  | _, .opt n => .opt (foldOpt n)
  | _, .row r => .row (foldRow r)
  | _, .optRow r => .optRow (foldOptRow r)

/-- `fold` on a node that may be absent. -/
def foldOpt : Option (Node η) → Option β
  | none => none
  | some n => some (fold n)

/-- `fold` on a row. -/
def foldRow : Row η (Node η) → Row η β
  | ⟨h, s, items⟩ => ⟨h, s, foldItems items⟩

/-- `fold` on a row that may be absent. -/
def foldOptRow : Option (Row η (Node η)) → Option (Row η β)
  | none => none
  | some r => some (foldRow r)

/-- `fold` on the elements of a row. -/
def foldItems : List (Node η) → List β
  | [] => []
  | n :: ns => fold n :: foldItems ns

end

private theorem foldItems_eq (ns : List (Node η)) : foldItems step ns = ns.map (fold step) := by
  induction ns with
  | nil => rfl
  | cons n ns ih => simp [foldItems, ih]

private theorem foldRow_eq (r : Row η (Node η)) : foldRow step r = r.map (fold step) := by
  cases r
  simp [foldRow, Row.map, foldItems_eq]

private theorem foldChild_eq {a : Arity} (c : Child (Node η) (Row η (Node η)) a) :
    foldChild step c = c.map (fold step) (Row.map (fold step)) := by
  cases c with
  | one n => rfl
  | opt n => cases n <;> rfl
  | row r => simp [foldChild, Child.map, foldRow_eq]
  | optRow r => cases r <;> simp [foldChild, Child.map, foldOptRow, foldRow_eq]

private theorem foldFields_eq {ss : List Slot} (fs : Fields (Node η) (Row η (Node η)) ss) :
    foldFields step fs = fs.map (fold step) (Row.map (fold step)) := by
  induction fs with
  | nil => rfl
  | cons c rest ih => rw [foldFields, foldChild_eq, ih, Fields.map]

/-- The equation of `fold`: the children are replaced by their values, slot by slot. -/
theorem fold_mk (h : η) (s : Span) (f : Flags) (k : Kind) (p : Payload k.attributes)
    (fs : Fields (Node η) (Row η (Node η)) k.slots) :
    fold step (.mk h s f k p fs) = step h s f k p (fs.map (fold step) (Row.map (fold step))) := by
  rw [fold, foldFields_eq]

end Fold

/-! ### Induction from the children up -/

private theorem lt_sizeOf_of_mem_child {a : Arity} {c : Child (Node η) (Row η (Node η)) a}
    {n : Node η} (h : n ∈ c.nodes) : sizeOf n < sizeOf c := by
  cases c with
  | one m => simp only [Child.nodes, List.mem_singleton] at h; subst h; simp
  | opt m =>
    simp only [Child.nodes, Option.mem_toList] at h
    subst h
    simp only [Child.opt.sizeOf_spec, Option.some.sizeOf_spec]
    omega
  | row r =>
    have := List.sizeOf_lt_of_mem (show n ∈ r.items from h)
    cases r
    simp only [Child.row.sizeOf_spec, Row.mk.sizeOf_spec] at *
    omega
  | optRow r =>
    cases r with
    | none => simp [Child.nodes] at h
    | some r =>
      have := List.sizeOf_lt_of_mem (show n ∈ r.items from h)
      cases r
      simp only [Child.optRow.sizeOf_spec, Option.some.sizeOf_spec, Row.mk.sizeOf_spec] at *
      omega

private theorem lt_sizeOf_of_mem_fields {ss : List Slot}
    {fs : Fields (Node η) (Row η (Node η)) ss} {n : Node η} (h : n ∈ fs.nodes) :
    sizeOf n < sizeOf fs := by
  induction fs with
  | nil => simp [Fields.nodes] at h
  | cons c rest ih =>
    simp only [Fields.nodes, List.mem_append] at h
    simp only [Fields.cons.sizeOf_spec]
    rcases h with h | h
    · have := lt_sizeOf_of_mem_child h
      omega
    · have := ih h
      omega

/-- A child is smaller than its parent. -/
theorem sizeOf_lt_of_mem_children {n c : Node η} (h : c ∈ n.children) : sizeOf c < sizeOf n := by
  cases n with
  | mk _ _ _ _ _ fs =>
    have : sizeOf c < sizeOf fs := lt_sizeOf_of_mem_fields h
    simp only [Node.mk.sizeOf_spec]
    omega

/-- A property that passes from the children of a node to the node holds of all nodes. -/
theorem induct {P : Node η → Prop} (step : ∀ n, (∀ c ∈ n.children, P c) → P n) (n : Node η) : P n :=
  step n fun c _ => induct step c
termination_by sizeOf n
decreasing_by exact sizeOf_lt_of_mem_children ‹_›

end Node

end SharedTree
