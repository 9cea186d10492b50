import SharedTree.Node.Shape

/-!
# Handles

Sharing is a matter of handles: two nodes are the same when their handles are equal, whatever they
hold, and likewise two rows. A handle names the region in which it was drawn and its number there.
Regions keep apart those who draw handles at the same time, such as a pass and the transform that
it calls; a `Supply` draws the handles of one region in order and counts them.
-/

namespace SharedTree

/-- The identity of a node or of a row. -/
structure Handle where
  region : Nat
  serial : Nat
deriving DecidableEq, Repr, Hashable, Inhabited

/-- A node with identity. -/
abbrev SharedNode : Type := Node Handle

/-- A row of such nodes, with an identity of its own. -/
abbrev SharedRow : Type := Row Handle SharedNode

/-- The handles of a region that are still to be drawn: so far `nodes` handles were drawn for nodes
and `rows` for rows. -/
structure Supply where
  region : Nat
  nodes : Nat := 0
  rows : Nat := 0
deriving DecidableEq, Repr, Inhabited

/-- Building draws handles from a supply. -/
abbrev Build : Type → Type := StateM Supply

namespace Supply

/-- The next handle for a node. -/
def drawNode : Build Handle := fun s => (⟨s.region, s.nodes⟩, { s with nodes := s.nodes + 1 })

/-- The next handle for a row. -/
def drawRow : Build Handle := fun s => (⟨s.region, s.rows⟩, { s with rows := s.rows + 1 })

end Supply

/-! ### Making nodes and rows -/

/-- A new row with the given elements. -/
def Row.create (items : List SharedNode) (span : Span := {}) : Build SharedRow := do
  return ⟨← Supply.drawRow, span, items⟩

/-- A new node of a kind, which holds exactly what is given. -/
def Node.create (k : Kind) (payload : Payload k.attributes)
    (fields : Fields SharedNode SharedRow k.slots) (span : Span := {}) (flags : Flags := {}) :
    Build SharedNode := do
  return .mk (← Supply.drawNode) span flags k payload fields

/-- A new row of elements that are still to be built. -/
def Row.build (r : Row Unit (Build SharedNode)) : Build SharedRow := do
  Row.create (← r.items.mapM id) r.span

/-- A new tree of a given shape, in which no two places share a handle. -/
def Shape.build : Shape → Build SharedNode :=
  Node.fold fun _ span flags k payload fields => do
    Node.create k payload (← fields.mapM id Row.build) span flags

/-! ### Identity -/

/-- Whether two nodes are the same. -/
def Node.same (m n : SharedNode) : Bool := m.handle == n.handle

/-- Whether two rows are the same. -/
def Row.same (r q : SharedRow) : Bool := r.handle == q.handle

/-- Identity where something may be absent: absent is the same as absent only. -/
def sameOpt {α : Type} (same : α → α → Bool) : Option α → Option α → Bool
  | some a, some b => same a b
  | none, none => true
  | _, _ => false

/-- Whether two children of one slot are the same. -/
def Child.same : {a : Arity} → Child SharedNode SharedRow a → Child SharedNode SharedRow a → Bool
  | _, .one m, .one n => m.same n
  | _, .opt m, .opt n => sameOpt Node.same m n
  | _, .row r, .row q => r.same q
  | _, .optRow r, .optRow q => sameOpt Row.same r q

/-- Whether two fillings of the same slots agree in every slot. -/
def Fields.same : {ss : List Slot} →
    Fields SharedNode SharedRow ss → Fields SharedNode SharedRow ss → Bool
  | _, .nil, .nil => true
  | _, .cons c cs, .cons d ds => c.same d && cs.same ds

/-! ### Changing the children of a node -/

/-- The node with other children: the very node if every slot keeps what it holds, and otherwise a
new node with the same kind, span, flags and payload. -/
def Node.withFields (n : SharedNode) (fields : Fields SharedNode SharedRow n.kind.slots) :
    Build SharedNode :=
  if n.fields.same fields then pure n else Node.create n.kind n.payload fields n.span n.flags

/-- A node of one kind was given where a node of another kind was due. -/
structure KindMismatch where
  expected : Kind
  actual : Kind
deriving DecidableEq, Repr

/-- The report of a mismatch of kinds. -/
def KindMismatch.message (e : KindMismatch) : String :=
  "update expected a " ++ e.expected.name ++ " node but was given a " ++ e.actual.name ++ " node"

/-- The node of kind `k` with other children, as `Node.withFields`; a node of another kind is
refused. -/
def Node.update (k : Kind) (n : SharedNode) (fields : Fields SharedNode SharedRow k.slots) :
    Except KindMismatch (Build SharedNode) :=
  if h : n.kind = k then .ok (n.withFields (h ▸ fields)) else .error ⟨k, n.kind⟩

end SharedTree
