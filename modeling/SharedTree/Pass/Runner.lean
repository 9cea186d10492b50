import SharedTree.Pass.Descent

/-!
# Running passes

A runner has options and keeps the totals of the passes that it has run. Each operation comes in two
forms: `descend?`, `visit?` and `visitRow?` report every failure, while `descend`, `visit` and
`visitRow` return their input as it was when a pass goes too deep, and break down when the transform
removes a child that its parent cannot do without.

A pass can also be run `alone`, without a runner at hand. The runner that is used has the default
options, and nothing is left of it in the end.
-/

namespace SharedTree.Pass

variable {σ α : Type}

/-- A runner of passes. -/
structure Runner where
  options : Options := {}
  totals : Stats := {}
deriving DecidableEq, Repr, Inhabited

/-- What a run has come to: its outcome, the state of the caller, the runner with its new totals,
the events in order, the counters of this run alone and the handles that it has drawn. -/
structure Report (σ α : Type) where
  outcome : Except Halt α
  state : σ
  runner : Runner
  events : List Event
  stats : Stats
  supply : Supply

/-- The same report with another result. -/
def Report.map {β : Type} (f : α → β) (r : Report σ α) : Report σ β :=
  ⟨r.outcome.map f, r.state, r.runner, r.events, r.stats, r.supply⟩

namespace Runner

/-- A runner that starts to count anew. -/
def reset (r : Runner) : Runner := { r with totals := {} }

/-- Runs an action with the handles of a region. The counters are added to the totals of the runner
when the action comes to its end, even if it fails, but not when the transform breaks down. -/
def run (r : Runner) (region : Nat) (entry : Entry) (action : Run σ α) (state : σ) :
    Report σ α :=
  let start : Progress σ := { state, supply := { region }, trace := [.opened entry] }
  match action.run start with
  | .ok a p => finish (.ok a) p true
  | .error (.failed e) p => finish (.error (.failed e)) p false
  | .error (.crashed message) p =>
    ⟨.error (.crashed message), p.state, r, (.closed :: p.trace).reverse, p.stats, p.supply⟩
where
  finish (outcome : Except Halt α) (p : Progress σ) (ok : Bool) : Report σ α :=
    ⟨outcome, p.state, { r with totals := r.totals.merge p.stats },
      (.closed :: .finished p.stats ok :: p.trace).reverse, p.stats, p.supply⟩

/-- Visits the nodes below a node, but not the node itself. -/
def descend? (r : Runner) (region : Nat) (t : Transform σ) (n : SharedNode) (state : σ) :
    Report σ SharedNode :=
  let limit := r.options.limit
  r.run region (.descend n.kind) (Pass.descend t limit limit n) state

/-- Visits a node and the nodes below it. An absent node stays absent. -/
def visit? (r : Runner) (region : Nat) (t : Transform σ) (n : Option SharedNode) (state : σ) :
    Report σ (Option SharedNode) :=
  let limit := r.options.limit
  r.run region (.visit (n.map Node.kind)) (action limit) state
where
  action (limit : Nat) : Run σ (Option SharedNode) :=
    match n with
    | none => return none
    | some n => Pass.visit t limit limit n

/-- Visits the elements of a row and the nodes below them. -/
def visitRow? (r : Runner) (region : Nat) (t : Transform σ) (row : SharedRow) (state : σ) :
    Report σ SharedRow :=
  let limit := r.options.limit
  r.run region (.visitRow row.items.length) (Pass.visitRow t limit limit row) state

end Runner

/-- Recovers from a run that went too deep by returning the input, and breaks down on any other
failure. -/
def Report.recover (input : α) (r : Report σ α) : Report σ α :=
  match r.outcome with
  | .error (.failed e) =>
    if e.isRecoverable then { r with outcome := .ok input, events := r.events ++ [.abandoned e] }
    else { r with outcome := .error (.crashed e.message) }
  | _ => r

namespace Runner

/-- `descend?` with recovery. -/
def descend (r : Runner) (region : Nat) (t : Transform σ) (n : SharedNode) (state : σ) :
    Report σ SharedNode :=
  (r.descend? region t n state).recover n

/-- `visit?` with recovery. -/
def visit (r : Runner) (region : Nat) (t : Transform σ) (n : Option SharedNode) (state : σ) :
    Report σ (Option SharedNode) :=
  (r.visit? region t n state).recover n

/-- `visitRow?` with recovery. -/
def visitRow (r : Runner) (region : Nat) (t : Transform σ) (row : SharedRow) (state : σ) :
    Report σ SharedRow :=
  (r.visitRow? region t row state).recover row

end Runner

/-! ### Passes without a runner -/

/-- What is left of a report when the runner and all counters are dropped. -/
structure Upshot (σ α : Type) where
  outcome : Except Halt α
  state : σ
  events : List Event

/-- The report without the runner and the counters. -/
def Report.upshot (r : Report σ α) : Upshot σ α := ⟨r.outcome, r.state, r.events⟩

/-- Runs a pass with a new runner that is dropped in the end. -/
def alone (operation : Runner → Report σ α) : Upshot σ α := (operation {}).upshot

/-- `Runner.descend?` without a runner. -/
def descendAlone? (region : Nat) (t : Transform σ) (n : SharedNode) (state : σ) :
    Upshot σ SharedNode :=
  alone fun r => r.descend? region t n state

/-- `Runner.visit?` without a runner. -/
def visitAlone? (region : Nat) (t : Transform σ) (n : Option SharedNode) (state : σ) :
    Upshot σ (Option SharedNode) :=
  alone fun r => r.visit? region t n state

/-- `Runner.descend` without a runner. -/
def descendAlone (region : Nat) (t : Transform σ) (n : SharedNode) (state : σ) :
    Upshot σ SharedNode :=
  alone fun r => r.descend region t n state

/-- `Runner.visit` without a runner. -/
def visitAlone (region : Nat) (t : Transform σ) (n : Option SharedNode) (state : σ) :
    Upshot σ (Option SharedNode) :=
  alone fun r => r.visit region t n state

/-- `Runner.visitRow` without a runner. -/
def visitRowAlone (region : Nat) (t : Transform σ) (row : SharedRow) (state : σ) :
    Upshot σ SharedRow :=
  alone fun r => r.visitRow region t row state

end SharedTree.Pass
