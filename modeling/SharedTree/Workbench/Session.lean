import SharedTree.Workbench.Action
import SharedTree.Workbench.Inventory

/-!
# Sessions

A session gives names to nodes, rows and runners, keeps an inventory of what was mentioned, and runs
passes on what it holds.
-/

namespace SharedTree.Workbench

open Pass

/-- A session. -/
structure Session where
  /-- The handles for what is built outside of passes. -/
  supply : Supply := ⟨0, 0, 0⟩
  /-- The number of regions that are taken. -/
  regions : Nat := 1
  nodes : Std.HashMap String SharedNode := {}
  rows : Std.HashMap String SharedRow := {}
  runners : Std.HashMap String Runner := {}
  inventory : Inventory := {}

/-- A step of a session. -/
abbrev Desk : Type → Type := EStateM Trouble Session

/-- Why a pass on a workbench has no result. -/
inductive Failure where
  | failed (error : PassError)
  | stumbled (trouble : Trouble)
  | crashed (message : String)
deriving DecidableEq, Repr

/-- What came of a pass: its result, the nodes that transforms were asked about, the events and the
totals of a runner that has a name. -/
structure Result (α : Type) where
  outcome : Except Failure α
  asked : List SharedNode
  events : List Event
  totals : Option Stats

namespace Session

variable {α : Type}

/-! ### Names -/

/-- Something that was found under a name, or not. -/
private def found (name : String) : Option α → Desk α
  | some a => pure a
  | none => throw (.unbound name)

/-- The runner of a name. -/
def runner (name : String) : Desk Runner := do found name ((← get).runners[name]?)

/-- Gives a name to a node. -/
def nameNode (name : String) (n : SharedNode) : Desk Unit :=
  modify fun s => { s with nodes := s.nodes.insert name n }

/-- Gives a name to a row. -/
def nameRow (name : String) (r : SharedRow) : Desk Unit :=
  modify fun s => { s with rows := s.rows.insert name r }

/-- Gives a name to a runner. -/
def nameRunner (name : String) (r : Runner) : Desk Unit :=
  modify fun s => { s with runners := s.runners.insert name r }

/-- The recipe that finds the node of a name. -/
def nodeNamed (s : Session) (name : String) : Recipe SharedNode := .given name s.nodes[name]?

/-- The recipe that finds the row of a name. -/
def rowNamed (s : Session) (name : String) : Recipe SharedRow := .given name s.rows[name]?

/-! ### Making and mentioning -/

/-- Makes something outside of any pass, where no node is current. -/
def prepare (recipe : Recipe α) : Desk α := do
  let s ← get
  match recipe none s.supply with
  | .ok (a, supply) => do
    set { s with supply }
    return a
  | .error t => throw t

/-- Mentions parts and describes what is new. -/
def mention (ps : List Part) : Desk (List Record) :=
  modifyGet fun s =>
    let (records, inventory) := s.inventory.mention ps
    (records, { s with inventory })

/-- The number of a part. -/
def idOf (p : Part) : Desk Id := return (← get).inventory.id p

/-! ### Passes -/

/-- Runs a pass with the runner of a name, whose totals go up, or with a new runner. -/
def run (name : Option String)
    (pass : Runner → Nat → RuleCounts × Work → Report (RuleCounts × Work) α) : Desk (Result α) := do
  let runner ← match name with
    | some name => runner name
    | none => pure {}
  let s ← get
  let report := pass runner s.regions ({}, { supply := s.supply, regions := s.regions + 1 })
  let work := report.state.2
  set { s with supply := work.supply, regions := work.regions }
  if let some name := name then nameRunner name report.runner
  let outcome := match report.outcome, work.trouble with
    | .ok a, _ => .ok a
    | .error (.failed e), _ => .error (.failed e)
    | .error (.crashed _), some t => .error (.stumbled t)
    | .error (.crashed message), none => .error (.crashed message)
  return ⟨outcome, work.asked.reverse, report.events, name.map fun _ => report.runner.totals⟩

end Session

end SharedTree.Workbench
