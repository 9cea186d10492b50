import SharedTree.Pass.Plain
import SharedTree.Pass.Runner

/-!
# Operations

A runner can be asked for three things: to visit the nodes below a node, to visit a node that may be absent, and to
visit a row. `Op` is the type of these operations, so that what holds of all three is stated once.

* `Op.run` carries out an operation inside a run, with and without sharing (`Plain.run`).
* `Runner.perform` is the operation as a run of its own; `Runner.perform_eq` traces it back to `Op.run`.
-/

namespace SharedTree

/-- The image of a row when all handles are forgotten. -/
def Row.image (r : SharedRow) : Row Unit Shape := (r.map Node.shape).shape

namespace Pass

variable {σ α : Type}

/-- What a pass can be asked for. -/
inductive Op where
  | descend (n : SharedNode)
  | visit (n : Option SharedNode)
  | visitRow (r : SharedRow)

namespace Op

/-- What an operation comes back with is of the sort that went in. -/
abbrev Result : Op → Type
  | .descend _ => SharedNode
  | .visit _ => Option SharedNode
  | .visitRow _ => SharedRow

def input : (op : Op) → op.Result
  | .descend n => n
  | .visit n => n
  | .visitRow r => r

/-- Whether what came back is the very thing that went in; absent is the same as absent only. -/
def same : (op : Op) → op.Result → Bool
  | .descend n, m => m.same n
  | .visit n, m => sameOpt Node.same m n
  | .visitRow r, q => q.same r

/-- Carries out an operation with a budget of levels under a limit. -/
def run (t : Transform σ) (limit budget : Nat) : (op : Op) → Run σ op.Result
  | .descend n => Pass.descend t limit budget n
  | .visit none => return none
  | .visit (some n) => Pass.visit t limit budget n
  | .visitRow r => Pass.visitRow t limit budget r

def entry : Op → Entry
  | .descend n => .descend n.kind
  | .visit n => .visit (n.map Node.kind)
  | .visitRow r => .visitRow r.items.length

/-- What is left of the result of an operation when all handles are forgotten. -/
abbrev Image : Op → Type
  | .descend _ => Shape
  | .visit _ => Option Shape
  | .visitRow _ => Row Unit Shape

def image : (op : Op) → op.Result → op.Image
  | .descend _, m => m.shape
  | .visit _, m => m.map Node.shape
  | .visitRow _, q => q.image

end Op

/-! ### The end of a run -/

/-- The state in which a computation ends, whether or not it succeeds. -/
def after {ε π : Type} : EStateM.Result ε π α → π
  | .ok _ p => p
  | .error _ p => p

/-- What a computation comes to, without the state. -/
def outcome {ε π : Type} : EStateM.Result ε π α → Except ε α
  | .ok a _ => .ok a
  | .error e _ => .error e

theorem outcome_eq_ok {ε π : Type} {result : EStateM.Result ε π α} {a : α} (h : outcome result = .ok a) :
    result = .ok a (after result) := by
  cases result with
  | ok b p => rw [Except.ok.inj h]; rfl
  | error e p => cases h

theorem outcome_eq_error {ε π : Type} {result : EStateM.Result ε π α} {e : ε} (h : outcome result = .error e) :
    result = .error e (after result) := by
  cases result with
  | ok b p => cases h
  | error e' p => rw [Except.error.inj h]; rfl

def Progress.start (region : Nat) (entry : Entry) (state : σ) : Progress σ :=
  { state, supply := { region }, trace := [.opened entry] }

/-- The operation without sharing: its outcome and the state of the caller in the end. -/
def Plain.perform (t : Transform σ) (limit : Nat) (op : Op) (state : σ) : Except Halt op.Image × σ :=
  let result := run op state
  (outcome result, after result)
where
  run : (op : Op) → Plain.Run σ op.Image
    | .descend n => Plain.descend t limit limit n
    | .visit none => return none
    | .visit (some n) => Plain.visit t limit limit n
    | .visitRow r => Plain.visitRow t limit limit r

namespace Runner

/-- The operation as a run of its own. -/
def perform (r : Runner) (region : Nat) (t : Transform σ) : (op : Op) → σ → Report σ op.Result
  | .descend n, s => r.descend? region t n s
  | .visit n, s => r.visit? region t n s
  | .visitRow q, s => r.visitRow? region t q s

/-- The report on a run that has come to its end. -/
def conclude (r : Runner) : EStateM.Result Halt (Progress σ) α → Report σ α
  | .ok a p => run.finish r (.ok a) p true
  | .error (.failed e) p => run.finish r (.error (.failed e)) p false
  | .error (.crashed message) p =>
    ⟨.error (.crashed message), p.state, r, (.closed :: p.trace).reverse, p.stats, p.supply⟩

/-- An operation of a runner is the same operation with the limit of the runner as its budget. -/
theorem perform_eq (r : Runner) (region : Nat) (t : Transform σ) (op : Op) (s : σ) :
    r.perform region t op s =
      r.conclude (op.run t r.options.limit r.options.limit (.start region op.entry s)) := by
  cases op with
  | descend n => rfl
  | visit n => cases n <;> rfl
  | visitRow q => rfl

variable (r : Runner) (result : EStateM.Result Halt (Progress σ) α)

@[simp] theorem conclude_outcome : (r.conclude result).outcome = Pass.outcome result := by
  rcases result with ⟨a, p⟩ | ⟨e | message, p⟩ <;> rfl

@[simp] theorem conclude_state : (r.conclude result).state = (after result).state := by
  rcases result with ⟨a, p⟩ | ⟨e | message, p⟩ <;> rfl

@[simp] theorem conclude_stats : (r.conclude result).stats = (after result).stats := by
  rcases result with ⟨a, p⟩ | ⟨e | message, p⟩ <;> rfl

@[simp] theorem conclude_supply : (r.conclude result).supply = (after result).supply := by
  rcases result with ⟨a, p⟩ | ⟨e | message, p⟩ <;> rfl

end Runner

end Pass

end SharedTree
