import SharedTree.Node.Revision
import SharedTree.Pass.Rules
import SharedTree.Workbench.Recipe

/-!
# Actions

What the rules of a workbench do with a node. Passes on a workbench keep their own affairs in a
`Work`: the handles for what their transforms make, the regions that are taken, the nodes that
transforms were asked about, and what a recipe stumbled on.
-/

namespace SharedTree.Workbench

open Pass

/-- The affairs of a pass on a workbench. -/
structure Work where
  supply : Supply
  /-- The number of regions that are taken. -/
  regions : Nat
  /-- The nodes that transforms were asked about, the last one first. -/
  asked : List SharedNode := []
  trouble : Option Trouble := none

/-- Takes a region. -/
def Work.claim (w : Work) : Nat × Work := (w.regions, { w with regions := w.regions + 1 })

/-- A transform on a workbench, which counts the uses of its rules. -/
abbrev Task : Type := Transform (RuleCounts × Work)

namespace Task

/-- Keeps every node. -/
def identity : Task := Transform.identity

/-- Follows rules. -/
def rules (rs : List (Rule Work)) : Task := Transform.ofRules rs

/-- The same task, which takes down what it is asked about. -/
def watched (t : Task) : Task := fun n (counts, w) =>
  t n (counts, { w with asked := n :: w.asked })

end Task

/-- What a rule does with a node. -/
abbrev Action : Type := Transform Work

namespace Action

/-- Answers with what is built. -/
def ofBuild (f : SharedNode → Build (Option SharedNode)) : Action := fun n w =>
  let (answer, supply) := (f n).run w.supply
  ⟨.ok answer, { w with supply }, []⟩

/-- Every node stays as it is. -/
def keep : Action := Transform.identity

/-- Every node is removed. -/
def remove : Action := Transform.ofFunction fun _ => none

/-- A copy in the place of each node. -/
def copy : Action := ofBuild fun n => return some (← n.copy)

/-- Twice the number in the place of a numeric literal. A literal that is no number of 32 bits is
removed. -/
def double : Action := ofBuild fun n =>
  if n.kind = .numericLiteral then
    match n.word? with
    | some value => return some (← n.literalLike (toString (2 * value)))
    | none => return none
  else return some n

/-- The sum in the place of an addition of integers. -/
def foldSum : Action := ofBuild fun n =>
  match n.sum? with
  | some value => return some (← n.literalLike (toString value))
  | none => return some n

/-- A node with a longer text in the place of one that has a text. -/
def retext (suffix : String) : Action := ofBuild fun n =>
  if n.text.isSome then return some (← n.retext suffix) else return some n

/-- What a recipe makes with the node as the current one. -/
def make (recipe : Recipe SharedNode) : Action := fun n w =>
  match recipe (some n) w.supply with
  | .ok (m, supply) => ⟨.ok (some m), { w with supply }, []⟩
  | .error trouble => ⟨.error trouble.message, { w with trouble := some trouble }, []⟩

/-- What becomes of the node in a pass of its own, which is watched as well. -/
def nested (task : Task) : Action := Transform.within Work.claim {} task.watched

end Action

end SharedTree.Workbench
