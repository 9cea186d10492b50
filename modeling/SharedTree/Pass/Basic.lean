import SharedTree.Kind

/-!
# Limits, counters and errors of passes

A pass may open a limited number of levels of nodes at once. It counts what it does, and it fails
when a level too many is due or when a child is removed that its parent cannot do without.
-/

namespace SharedTree.Pass

/-! ### Limits -/

/-- The number of levels that a pass may open unless it is told otherwise. -/
def defaultDepth : UInt32 := 500

/-- The number of levels that no pass may exceed, whatever it is told. -/
def depthCeiling : UInt32 := 10000

/-- The bytes of stack that a level needs before it goes down. -/
def stackReserve : Nat := 128 * 1024

/-- The bytes by which a stack is grown that has fewer left than a level needs. -/
def stackSegment : Nat := 2 * 1024 * 1024

/-- What a caller can set. -/
structure Options where
  maxDepth : UInt32 := defaultDepth
deriving DecidableEq, Repr, Inhabited

/-- The limit that is in force. -/
def Options.limit (o : Options) : Nat := min o.maxDepth.toNat depthCeiling.toNat

/-! ### Counters -/

/-- What a pass, or several passes together, have done. -/
structure Stats where
  /-- Nodes that were handed to the transform. -/
  visited : Nat := 0
  /-- Answers that were another node. -/
  replaced : Nat := 0
  /-- Answers that were no node. -/
  removed : Nat := 0
  /-- Nodes that were made again because a child had changed. -/
  rebuilt : Nat := 0
  /-- The greatest number of levels that were open at once. -/
  deepest : Nat := 0
deriving DecidableEq, Repr, Inhabited

namespace Stats

/-- The counts of two runs together. -/
def merge (s t : Stats) : Stats :=
  ⟨s.visited + t.visited, s.replaced + t.replaced, s.removed + t.removed, s.rebuilt + t.rebuilt,
    max s.deepest t.deepest⟩

/-- Whether nothing was replaced, removed or rebuilt. -/
def isUnchanged (s : Stats) : Bool := s.replaced == 0 && s.removed == 0 && s.rebuilt == 0

end Stats

/-! ### Errors -/

/-- Why a pass fails. -/
inductive PassError where
  /-- A level too many was due, at a node of the given kind. -/
  | tooDeep (limit : Nat) (kind : Kind)
  /-- The transform removed the child of a parent in a slot that must be filled. -/
  | requiredRemoved (parent : Kind) (slot : String)
deriving DecidableEq, Repr

namespace PassError

/-- The report of an error. -/
def message : PassError → String
  | tooDeep limit kind =>
    "rewrite nesting exceeded " ++ toString limit ++ " levels at a " ++ kind.name ++ " node"
  | requiredRemoved parent slot =>
    "transform removed the required `" ++ slot ++ "` child of a " ++ parent.name ++ " node"

/-- An overrun can be recovered from by leaving the tree as it is. A removed child is a defect of
the transform. -/
def isRecoverable : PassError → Bool
  | tooDeep _ _ => true
  | requiredRemoved _ _ => false

end PassError

end SharedTree.Pass
