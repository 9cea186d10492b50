import SharedTree.Pass.Runner

/-!
# Transforms by rules

A rule says for which nodes it is meant, what it does with them, and how often it may be used. In a
list of rules the first one that fits a node is used, and a node that no rule fits is kept.

A transform may run a pass of its own below the node that it is asked about: `Transform.within`.
-/

namespace SharedTree.Pass

variable {σ κ : Type}

/-- A rule. -/
structure Rule (σ : Type) where
  /-- Whether the rule is meant for a node, given the number of calls before this one. -/
  fits : Nat → SharedNode → Bool
  action : Transform σ
  /-- How often the rule may be used, if that is limited. -/
  times : Option Nat := none

/-- What rules have done: how often they were asked, and how often each of them was used. -/
structure RuleCounts where
  calls : Nat := 0
  uses : List Nat := []
deriving DecidableEq, Repr, Inhabited

/-- The first rule that fits a node and is not used up, with the new numbers of uses. -/
def Rule.first (calls : Nat) (n : SharedNode) :
    List (Rule σ) → List Nat → Option (Rule σ × List Nat)
  | [], _ => none
  | r :: rules, uses =>
    let used := uses.headD 0
    if r.fits calls n && r.times.all (used < ·) then some (r, (used + 1) :: uses.tail)
    else (first calls n rules uses.tail).map fun (s, later) => (s, used :: later)

namespace Transform

/-- The transform that a list of rules describes. -/
def ofRules (rules : List (Rule σ)) : Transform (RuleCounts × σ) := fun n (counts, s) =>
  match Rule.first counts.calls n rules counts.uses with
  | none => ⟨.ok (some n), ({ counts with calls := counts.calls + 1 }, s), []⟩
  | some (rule, uses) =>
    let reply := rule.action n s
    ⟨reply.answer, (⟨counts.calls + 1, uses⟩, reply.state), reply.events⟩

/-- Answers a node with what becomes of it in a pass of its own. The pass starts with the inner
state `inner` and draws its handles from a region that `claim` provides. -/
def within (claim : σ → Nat × σ) (inner : κ) (t : Transform (κ × σ)) : Transform σ := fun n s =>
  let (region, s) := claim s
  let report := ({} : Runner).descend region t n (inner, s)
  let answer := match report.outcome with
    | .ok m => .ok (some m)
    | .error (.failed e) => .error e.message
    | .error (.crashed message) => .error message
  ⟨answer, report.state.2, report.events⟩

end Transform

end SharedTree.Pass
