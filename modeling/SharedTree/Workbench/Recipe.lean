import SharedTree.Handle
import SharedTree.Node.View
import SharedTree.Sample

/-!
# Recipes

A recipe makes a node or a row, or finds one that there is. It may refer to a current node, and it
fails if something that it refers to does not exist or is of the wrong kind.
-/

namespace SharedTree.Workbench

/-- Why a recipe fails. -/
inductive Trouble where
  /-- Nothing has this name. -/
  | unbound (name : String)
  /-- A node has no child of this index. -/
  | noChild (index : Nat)
  /-- A node holds nothing of the right sort in a slot of this name. -/
  | noSlot (name : String)
  /-- A node is not of the kind whose slots are given. -/
  | mismatch (m : KindMismatch)
deriving DecidableEq, Repr

/-- The report of a trouble. -/
def Trouble.message : Trouble → String
  | unbound name => "nothing is named " ++ name
  | noChild index => "no child " ++ toString index
  | noSlot name => "nothing in slot " ++ name
  | mismatch m => m.message

/-- How to make something, given the current node. -/
abbrev Recipe : Type → Type := ReaderT (Option SharedNode) (StateT Supply (Except Trouble))

namespace Recipe

variable {α : Type}

/-- Draws the handles for what is built. -/
def build (b : Build α) : Recipe α := fun _ s => .ok (b s)

/-- Something that was found under a name, or not. -/
def given (name : String) : Option α → Recipe α
  | some a => pure a
  | none => throw (.unbound name)

/-- The current node. -/
def current : Recipe SharedNode := do given "$" (← read)

/-- A new row of the nodes that recipes make. -/
def row (items : List (Recipe SharedNode)) (span : Span := {}) : Recipe SharedRow := do
  build (Row.create (← items.mapM id) span)

/-- A new node with the children that recipes make. -/
def create (k : Kind) (payload : Payload k.attributes)
    (fields : Fields (Recipe SharedNode) (Recipe SharedRow) k.slots) (span : Span := {})
    (flags : Flags := {}) : Recipe SharedNode := do
  build (Node.create k payload (← fields.mapM id id) span flags)

/-- A node of kind `k` with the children that recipes make. -/
def update (k : Kind) (node : Recipe SharedNode)
    (fields : Fields (Recipe SharedNode) (Recipe SharedRow) k.slots) : Recipe SharedNode := do
  let n ← node
  match Node.update k n (← fields.mapM id id) with
  | .ok b => build b
  | .error m => throw (.mismatch m)

/-- A child of a node. -/
def child (index : Nat) (node : Recipe SharedNode) : Recipe SharedNode := do
  match (← node).child? index with
  | some n => return n
  | none => throw (.noChild index)

/-- The node in a slot of a node. -/
def slot (name : String) (node : Recipe SharedNode) : Recipe SharedNode := do
  match (← node).node? name with
  | some n => return n
  | none => throw (.noSlot name)

/-- The row in a slot of a node. -/
def rowSlot (name : String) (node : Recipe SharedNode) : Recipe SharedRow := do
  match (← node).row? name with
  | some r => return r
  | none => throw (.noSlot name)

/-- What becomes of a node when a recipe is used a number of times, each time with the last result
as the current node. -/
def wrap (layer : Recipe SharedNode) (times : Nat) (node : Recipe SharedNode) :
    Recipe SharedNode := do
  (List.range times).foldlM (fun n _ => fun _ => layer (some n)) (← node)

end Recipe

end SharedTree.Workbench
