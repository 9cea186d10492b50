import SharedTree.Pass.Transform

/-!
# Passes over trees

A pass visits the nodes below a node, parents before children. Visiting a node asks the transform
about it and then goes on below the answer, so that replacements are visited as well. A parent whose
children come back as they were comes back itself; otherwise it is made again with the new children.

The recursion is on the budget: the number of levels that may still be opened. The node under which
a level is opened, the visits of its slots and the rows in them all stay on that level.
-/

namespace SharedTree.Pass

variable {σ : Type}

/-- Why a run stops before its end: it fails, or the transform breaks down. -/
inductive Halt where
  | failed (error : PassError)
  | crashed (message : String)
deriving DecidableEq, Repr

/-- A run under way: the state of the caller, the counters, the handles that the pass draws, and
the events so far, the newest first. -/
structure Progress (σ : Type) where
  state : σ
  stats : Stats := {}
  supply : Supply
  trace : List Event := []

/-- A step of a run. What was counted and reported before a halt stays. -/
abbrev Run (σ : Type) : Type → Type := EStateM Halt (Progress σ)

namespace Run

/-- Fails with an error. -/
def fail {α : Type} (e : PassError) : Run σ α := throw (.failed e)

/-- Counts. -/
def tally (f : Stats → Stats) : Run σ Unit := modify fun p => { p with stats := f p.stats }

/-- Reports an event. -/
def report (e : Event) : Run σ Unit := modify fun p => { p with trace := e :: p.trace }

/-- Builds with the handles of the pass. -/
def build {α : Type} (b : Build α) : Run σ α :=
  modifyGet fun p => let (a, supply) := b p.supply; (a, { p with supply })

end Run

open Run

/-! ### Visiting -/

/-- Asks a transform about a node. -/
def ask (t : Transform σ) (n : SharedNode) : Run σ (Option SharedNode) := do
  let p ← get
  let reply := t n p.state
  set { p with
    state := reply.state
    stats := { p.stats with visited := p.stats.visited + 1 }
    trace := reply.events.reverse ++ p.trace }
  match reply.answer with
  | .ok answer => return answer
  | .error message => throw (.crashed message)

/-- Visits a node: asks the transform about it and goes on below the answer. -/
def visitWith (t : Transform σ) (below : SharedNode → Run σ SharedNode) (n : SharedNode) :
    Run σ (Option SharedNode) := do
  match ← ask t n with
  | none =>
    tally fun s => { s with removed := s.removed + 1 }
    report (.removed n.kind n.span.pos)
    return none
  | some m =>
    unless m.same n do
      tally fun s => { s with replaced := s.replaced + 1 }
      report (.replaced n.kind m.kind n.span.pos)
    return some (← below m)

/-- The elements of a row after `node` was visited with the result `answer` and the elements behind
it were visited as well; none if nothing changed. -/
def rejoin (node : SharedNode) (rest : List SharedNode) (answer : Option SharedNode)
    (changed : Option (List SharedNode)) : Option (List SharedNode) :=
  match answer, changed with
  | some m, none => if m.same node then none else some (m :: rest)
  | some m, some rest => some (m :: rest)
  | none, changed => some (changed.getD rest)

/-- Visits the elements of a row in order and drops those that are removed; none if every element
came back as it was. -/
def visitItems (visit : SharedNode → Run σ (Option SharedNode)) :
    List SharedNode → Run σ (Option (List SharedNode))
  | [] => return none
  | n :: rest => do
    let answer ← visit n
    let changed ← visitItems visit rest
    return rejoin n rest answer changed

/-- Visits the elements of a row. The row comes back itself if nothing changed; otherwise a new row
has the same span. -/
def visitRowWith (visit : SharedNode → Run σ (Option SharedNode)) (r : SharedRow) :
    Run σ SharedRow := do
  match ← visitItems visit r.items with
  | none => return r
  | some items => build (Row.create items r.span)

/-- Visits what is in a slot. What is absent stays absent, and a node that must be there must not be
removed. -/
def visitChild (visit : SharedNode → Run σ (Option SharedNode)) (parent : Kind) (label : String) :
    {a : Arity} → Child SharedNode SharedRow a → Run σ (Child SharedNode SharedRow a)
  | _, .one n => do
    match ← visit n with
    | some m => return .one m
    | none => fail (.requiredRemoved parent label)
  | _, .opt none => return .opt none
  | _, .opt (some n) => return .opt (← visit n)
  | _, .row r => return .row (← visitRowWith visit r)
  | _, .optRow none => return .optRow none
  | _, .optRow (some r) => return .optRow (some (← visitRowWith visit r))

/-- Visits the slots of a node in order. -/
def visitFields (visit : SharedNode → Run σ (Option SharedNode)) (parent : Kind) :
    {ss : List Slot} → Fields SharedNode SharedRow ss → Run σ (Fields SharedNode SharedRow ss)
  | _, .nil => return .nil
  | _, @Fields.cons _ _ s _ c rest => do
    let c ← visitChild visit parent s.label c
    let rest ← visitFields visit parent rest
    return .cons c rest

/-! ### Going down -/

/-- Puts new children into a node and counts the node if it had to be made again. -/
def rebuild (n : SharedNode) (fields : Fields SharedNode SharedRow n.kind.slots) :
    Run σ SharedNode := do
  let m ← build (n.withFields fields)
  unless m.same n do
    tally fun s => { s with rebuilt := s.rebuilt + 1 }
  return m

/-- Visits the children of a node with a budget of levels under a limit. A terminal node takes a
level as well, but nothing below it is visited. -/
def descend (t : Transform σ) (limit : Nat) : Nat → SharedNode → Run σ SharedNode
  | 0, n => fail (.tooDeep limit n.kind)
  | budget + 1, n => do
    tally fun s => { s with deepest := max s.deepest (limit - budget) }
    if n.kind.isTerminal then return n
    else
      let fields ← visitFields (visitWith t (descend t limit budget)) n.kind n.fields
      rebuild n fields

/-- Visits a node with a budget of levels under a limit. -/
def visit (t : Transform σ) (limit budget : Nat) : SharedNode → Run σ (Option SharedNode) :=
  visitWith t (descend t limit budget)

/-- Visits a row with a budget of levels under a limit. -/
def visitRow (t : Transform σ) (limit budget : Nat) : SharedRow → Run σ SharedRow :=
  visitRowWith (visit t limit budget)

end SharedTree.Pass
