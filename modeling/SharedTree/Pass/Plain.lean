import SharedTree.Pass.Descent

/-!
# Passes without sharing

The same pass without sharing: every node that is not terminal is made again, whether or not a child
has changed, and the result is a shape, in which no handles are left. There are no counters, no
events and no fresh handles; the transform is asked about the same nodes in the same order.
-/

namespace SharedTree.Pass.Plain

variable {σ : Type}

/-- A step of a plain run, which has nothing but the state of the caller. -/
abbrev Run (σ : Type) : Type → Type := EStateM Halt σ

/-- Asks a transform about a node. -/
def ask (t : Transform σ) (n : SharedNode) : Run σ (Option SharedNode) := fun s =>
  let reply := t n s
  match reply.answer with
  | .ok answer => .ok answer reply.state
  | .error message => .error (.crashed message) reply.state

/-- Visits a node: asks the transform about it and goes on below the answer. -/
def visitWith (t : Transform σ) (below : SharedNode → Run σ Shape) (n : SharedNode) :
    Run σ (Option Shape) := do
  match ← ask t n with
  | none => return none
  | some m => return some (← below m)

/-- Visits the elements of a row in order and keeps those that are not removed. -/
def visitItems (visit : SharedNode → Run σ (Option Shape)) : List SharedNode → Run σ (List Shape)
  | [] => return []
  | n :: rest => do
    let answer ← visit n
    return answer.toList ++ (← visitItems visit rest)

/-- Visits the elements of a row, which keeps its span. -/
def visitRowWith (visit : SharedNode → Run σ (Option Shape)) (r : SharedRow) :
    Run σ (Row Unit Shape) := do
  return ⟨(), r.span, ← visitItems visit r.items⟩

/-- Visits what is in a slot. -/
def visitChild (visit : SharedNode → Run σ (Option Shape)) (parent : Kind) (label : String) :
    {a : Arity} → Child SharedNode SharedRow a → Run σ (Child Shape (Row Unit Shape) a)
  | _, .one n => do
    match ← visit n with
    | some m => return .one m
    | none => throw (.failed (.requiredRemoved parent label))
  | _, .opt none => return .opt none
  | _, .opt (some n) => return .opt (← visit n)
  | _, .row r => return .row (← visitRowWith visit r)
  | _, .optRow none => return .optRow none
  | _, .optRow (some r) => return .optRow (some (← visitRowWith visit r))

/-- Visits the slots of a node in order. -/
def visitFields (visit : SharedNode → Run σ (Option Shape)) (parent : Kind) :
    {ss : List Slot} → Fields SharedNode SharedRow ss → Run σ (Fields Shape (Row Unit Shape) ss)
  | _, .nil => return .nil
  | _, @Fields.cons _ _ s _ c rest => do
    let c ← visitChild visit parent s.label c
    let rest ← visitFields visit parent rest
    return .cons c rest

/-- Visits the children of a node with a budget of levels under a limit. -/
def descend (t : Transform σ) (limit : Nat) : Nat → SharedNode → Run σ Shape
  | 0, n => throw (.failed (.tooDeep limit n.kind))
  | budget + 1, n => do
    if n.kind.isTerminal then return n.shape
    else
      let fields ← visitFields (visitWith t (descend t limit budget)) n.kind n.fields
      return .mk () n.span n.flags n.kind n.payload fields

/-- Visits a node with a budget of levels under a limit. -/
def visit (t : Transform σ) (limit budget : Nat) : SharedNode → Run σ (Option Shape) :=
  visitWith t (descend t limit budget)

/-- Visits a row with a budget of levels under a limit. -/
def visitRow (t : Transform σ) (limit budget : Nat) : SharedRow → Run σ (Row Unit Shape) :=
  visitRowWith (visit t limit budget)

end SharedTree.Pass.Plain
