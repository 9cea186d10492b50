import SharedTree.Pass.Descent

/-!
# Passes with a register of open levels

A pass counts the open levels in a register of 32 bits. Before a level is opened, the register is compared with the
limit; opening the level adds one to the register and closing it takes one away, also when something has failed on the
level. An addition or subtraction that leaves the range of the register breaks the pass down, and so does the transform
when it breaks down. `Pass.descend` has no register and tells the number of open levels from its budget.

The descent is by recursion on some fuel, with one unit for each level that is opened. The fuel has no part in what
happens on a level.
-/

namespace SharedTree.Pass

variable {σ α : Type}

/-- The state of the caller, and the register of open levels. -/
structure Gauged (σ : Type) where
  caller : σ
  depth : UInt32

namespace Register

open Run

/-- The same transform where there is a register, which it does not see. -/
def aside (t : Transform σ) : Transform (Gauged σ) := fun n g =>
  let reply := t n g.caller
  ⟨reply.answer, { g with caller := reply.state }, reply.events⟩

/-- Opens a level below a node of a kind. -/
def enter (limit : Nat) (kind : Kind) : Run (Gauged σ) Unit := do
  let p ← get
  let depth := p.state.depth
  if limit ≤ depth.toNat then fail (.tooDeep limit kind)
  else if depth.toNat + 1 = UInt32.size then throw (.crashed "attempt to add with overflow")
  else
    set { p with
      state := { p.state with depth := depth + 1 }
      stats := { p.stats with deepest := max p.stats.deepest (depth + 1).toNat } }

/-- Closes a level. -/
def leave : Run (Gauged σ) Unit := do
  let p ← get
  let depth := p.state.depth
  if depth = 0 then throw (.crashed "attempt to subtract with overflow")
  else set { p with state := { p.state with depth := depth - 1 } }

/-- Does something on an open level and closes the level, whether or not it fails. After a breakdown nothing is
closed. -/
def level (x : Run (Gauged σ) α) : Run (Gauged σ) α := fun p =>
  match x p with
  | .ok a q => (leave >>= fun _ => pure a) q
  | .error (.failed e) q => (leave >>= fun _ => throw (.failed e)) q
  | .error (.crashed message) q => .error (.crashed message) q

/-- Counts a node that has come back as another one. -/
def countRebuilt (n m : SharedNode) : Run σ SharedNode := do
  unless m.same n do
    tally fun s => { s with rebuilt := s.rebuilt + 1 }
  return m

/-- What happens on the level below a node, where `visit` visits the children. -/
def dispatch (visit : SharedNode → Run σ (Option SharedNode)) (n : SharedNode) : Run σ SharedNode :=
  if n.kind.isTerminal then return n
  else do
    let fields ← visitFields visit n.kind n.fields
    build (n.withFields fields)

/-- Visits the children of a node under a limit. -/
def descend (t : Transform σ) (limit : Nat) : Nat → SharedNode → Run (Gauged σ) SharedNode
  | 0, _ => throw (.crashed "no fuel")
  | fuel + 1, n => do
    enter limit n.kind
    let m ← level (dispatch (visitWith (aside t) (descend t limit fuel)) n)
    countRebuilt n m

/-- Visits a node under a limit. -/
def visit (t : Transform σ) (limit fuel : Nat) : SharedNode → Run (Gauged σ) (Option SharedNode) :=
  visitWith (aside t) (descend t limit fuel)

/-- Visits a row under a limit. -/
def visitRow (t : Transform σ) (limit fuel : Nat) : SharedRow → Run (Gauged σ) SharedRow :=
  visitRowWith (visit t limit fuel)

end Register

end SharedTree.Pass
