import SharedTree.Node.Size
import SharedTree.Proofs.Limit
import Mathlib.Data.List.Induction

/-!
# Runners over whole histories

A runner is asked for one operation after the other, and now and then it is told to count anew. `Runner.serve` carries
out such a history of commands, whatever the single operations come to.

* A runner has no memory but its totals: `Runner.options_serve`, `Runner.answer_agrees`.
* The totals are the counters of the requests since the last reset, put together: `Runner.totals_serve`. Each request
  counts, be it that it fails or that the runner breaks down on its failure. Only what was counted before the transform
  itself broke down is lost.
* A pass that is run alone comes to what a runner with the default options comes to after any history: `alone_answer`.
* `Runner.serve_history` puts this together with the relation between the two forms of a request.
-/

namespace SharedTree.Pass

variable {σ α : Type}

/-- An operation of which a runner is asked, with a transform, a state of the caller and a region for the handles. -/
structure Request (σ : Type) where
  op : Op
  transform : Transform σ
  state : σ
  region : Nat

/-- The same request with a record of the calls. -/
def Request.recorded (q : Request σ) : Request (Logged σ) :=
  ⟨q.op, q.transform.recorded, (q.state, []), q.region⟩

/-- The two forms of an operation: the strict form reports every failure, and the lenient form recovers. -/
inductive Mode where
  | strict
  | lenient
deriving DecidableEq, Repr

/-- What a runner can be told. -/
inductive Command : Type 1 where
  | ask {σ : Type} (mode : Mode) (q : Request σ)
  | reset

def Command.isAsk : Command → Bool
  | .ask _ _ => true
  | .reset => false

namespace Runner

/-- The operation in the lenient form. -/
def performLenient (r : Runner) (region : Nat) (t : Transform σ) : (op : Op) → σ → Report σ op.Result
  | .descend n, s => r.descend region t n s
  | .visit n, s => r.visit region t n s
  | .visitRow q, s => r.visitRow region t q s

/-- What a runner comes to with a request. -/
def answer (r : Runner) (q : Request σ) : Mode → Report σ q.op.Result
  | .strict => r.perform q.region q.transform q.op q.state
  | .lenient => r.performLenient q.region q.transform q.op q.state

/-- The runner after a command. -/
def obey (r : Runner) : Command → Runner
  | .ask mode q => (r.answer q mode).runner
  | .reset => r.reset

/-- The runner after a history of commands. -/
def serve (r : Runner) (history : List Command) : Runner := history.foldl obey r

end Runner

/-! ### Counting -/

/-- Sums of the counts of some runs, and the deepest of their levels. -/
def Stats.together (ss : List Stats) : Stats where
  visited := Node.total (ss.map Stats.visited)
  replaced := Node.total (ss.map Stats.replaced)
  removed := Node.total (ss.map Stats.removed)
  rebuilt := Node.total (ss.map Stats.rebuilt)
  deepest := (ss.map Stats.deepest).foldr max 0

private theorem Stats.together_cons (s : Stats) (ss : List Stats) : together (s :: ss) = (together ss).merge s := by
  simp only [together, merge, List.map_cons, Node.total, List.foldr_cons, Nat.add_comm, Nat.max_comm]

private theorem Stats.merge_empty (s : Stats) : s.merge {} = s := by
  simp only [merge, Nat.add_zero, Nat.max_zero]

/-- What a run counts: its counters in the end, but nothing if the transform has broken down. -/
def Report.counts (r : Report σ α) : Stats :=
  match r.outcome with
  | .error (.crashed _) => {}
  | _ => r.stats

/-- What a command counts under some options. -/
def Command.counts (o : Options) : Command → Stats
  | .ask _ q => (({ options := o } : Runner).answer q .strict).counts
  | .reset => {}

/-- The requests after the last reset of a history, the newest first. -/
def sinceReset (history : List Command) : List Command := history.reverse.takeWhile Command.isAsk

private theorem sinceReset_reset (history : List Command) : sinceReset (history ++ [.reset]) = [] := by
  rw [sinceReset, List.reverse_append]
  rfl

private theorem sinceReset_ask (history : List Command) (mode : Mode) (q : Request σ) :
    sinceReset (history ++ [.ask mode q]) = .ask mode q :: sinceReset history := by
  rw [sinceReset, List.reverse_append]
  rfl

namespace Runner

/-! ### The two forms of a request -/

theorem performLenient_eq (r : Runner) (region : Nat) (t : Transform σ) (op : Op) (s : σ) :
    r.performLenient region t op s = (r.perform region t op s).recover op.input := by
  cases op <;> rfl

/-- The lenient form recovers from the report of the strict one. -/
theorem answer_lenient (r : Runner) (q : Request σ) :
    r.answer q .lenient = (r.answer q .strict).recover q.op.input := r.performLenient_eq ..

end Runner

section Recover

variable (input : α) (report : Report σ α)

private theorem Report.recover_runner : (report.recover input).runner = report.runner := by
  unfold Report.recover
  split
  · split <;> rfl
  · rfl

theorem Report.recover_state : (report.recover input).state = report.state := by
  unfold Report.recover
  split
  · split <;> rfl
  · rfl

theorem Report.recover_stats : (report.recover input).stats = report.stats := by
  unfold Report.recover
  split
  · split <;> rfl
  · rfl

/-- A recovered run succeeds if the run does, and with the input if the run went too deep. -/
theorem Report.recover_eq_ok (a : α) : (report.recover input).outcome = .ok a ↔
    report.outcome = .ok a ∨ (∃ l k, report.outcome = .error (.failed (.tooDeep l k))) ∧ a = input := by
  obtain ⟨outcome, state, runner, events, stats, supply⟩ := report
  rcases outcome with ((⟨l, k⟩ | ⟨parent, slot⟩) | message) | b <;>
    simp [Report.recover, PassError.isRecoverable, eq_comm]

/-- A recovered run breaks down if a node was removed that had to be there, or if the transform has broken down. -/
theorem Report.recover_eq_crashed (message : String) : (report.recover input).outcome = .error (.crashed message) ↔
    (∃ parent slot, report.outcome = .error (.failed (.requiredRemoved parent slot)) ∧
      message = (PassError.requiredRemoved parent slot).message) ∨ report.outcome = .error (.crashed message) := by
  obtain ⟨outcome, state, runner, events, stats, supply⟩ := report
  rcases outcome with ((⟨l, k⟩ | ⟨parent, slot⟩) | message') | b <;>
    simp [Report.recover, PassError.isRecoverable, eq_comm]

private theorem Report.recover_ne_failed (e : PassError) : (report.recover input).outcome ≠ .error (.failed e) := by
  obtain ⟨outcome, state, runner, events, stats, supply⟩ := report
  rcases outcome with ((⟨l, k⟩ | ⟨parent, slot⟩) | message') | b <;>
    simp [Report.recover, PassError.isRecoverable]

theorem Report.Agrees.recover {x y : Report σ α} (h : x.Agrees y) : (x.recover input).Agrees (y.recover input) := by
  obtain ⟨outcome, state, runner, events, stats, supply⟩ := x
  obtain ⟨outcome', state', runner', events', stats', supply'⟩ := y
  obtain ⟨rfl, rfl, rfl, rfl, rfl⟩ := h
  rcases outcome with ((⟨l, k⟩ | ⟨parent, slot⟩) | message) | b <;> exact ⟨rfl, rfl, rfl, rfl, rfl⟩

end Recover

namespace Runner

variable (r : Runner)

/-! ### No memory but the totals -/

/-- A runner with the same options comes to the same with a request. -/
theorem answer_agrees {r' : Runner} (same : r.options = r'.options) (q : Request σ) (mode : Mode) :
    (r.answer q mode).Agrees (r'.answer q mode) := by
  have strict : (r.answer q .strict).Agrees (r'.answer q .strict) := by
    show (r.perform _ _ _ _).Agrees (r'.perform _ _ _ _)
    rw [perform_eq, perform_eq, same]
    exact conclude_agrees r' r _
  cases mode with
  | strict => exact strict
  | lenient =>
    rw [answer_lenient, answer_lenient]
    exact strict.recover q.op.input

/-- A request changes nothing of a runner but the totals, to which it adds what it counts. -/
theorem obey_ask (mode : Mode) (q : Request σ) :
    r.obey (.ask mode q) = { r with totals := r.totals.merge ((Command.ask mode q).counts r.options) } := by
  have lenient : (r.answer q mode).runner = (r.answer q .strict).runner := by
    cases mode with
    | strict => rfl
    | lenient =>
      rw [answer_lenient]
      exact Report.recover_runner _ _
  have fresh : ({ options := r.options } : Runner).answer q .strict = _ := perform_eq ..
  have ends : r.answer q .strict = _ := perform_eq ..
  rw [obey, lenient, Command.counts, fresh, ends]
  -- the same computation ends both runs
  rcases q.op.run q.transform r.options.limit r.options.limit (.start q.region q.op.entry q.state) with
    ⟨a, p⟩ | ⟨e | message, p⟩
  · rfl
  · rfl
  · show r = { r with totals := r.totals.merge {} }
    rw [Stats.merge_empty]

/-- No command changes the options. -/
theorem options_serve (history : List Command) : (r.serve history).options = r.options := by
  induction history generalizing r with
  | nil => rfl
  | cons c history ih =>
    refine (ih (r.obey c)).trans ?_
    cases c with
    | ask mode q => rw [obey_ask]
    | reset => rfl

private theorem serve_append (history : List Command) (c : Command) :
    r.serve (history ++ [c]) = (r.serve history).obey c :=
  List.foldl_append

/-- The totals are what the requests since the last reset have counted. -/
theorem totals_serve (o : Options) (history : List Command) :
    (({ options := o } : Runner).serve history).totals =
      Stats.together ((sinceReset history).map (Command.counts o)) := by
  induction history using List.reverseRecOn with
  | nil => rfl
  | append_singleton history c ih =>
    rw [serve_append]
    cases c with
    | ask mode q => rw [obey_ask, options_serve, sinceReset_ask, List.map_cons, Stats.together_cons, ih]
    | reset => rw [sinceReset_reset]; rfl

end Runner

/-! ### Passes without a runner -/

/-- Reports that agree tell a caller without a runner the same. -/
theorem Report.Agrees.upshot {x y : Report σ α} (h : x.Agrees y) : x.upshot = y.upshot := by
  unfold Report.upshot
  rw [h.outcome, h.state, h.events]

/-- A pass that is run alone comes to what a runner with the default options comes to, whatever it has been told
before. -/
theorem alone_answer (history : List Command) (q : Request σ) (mode : Mode) :
    alone (fun r => r.answer q mode) = ((({} : Runner).serve history).answer q mode).upshot := by
  have same : ({} : Runner).options = (({} : Runner).serve history).options :=
    (Runner.options_serve {} history).symm
  exact (Runner.answer_agrees {} same q mode).upshot

section Alone

variable (history : List Command) (region : Nat) (t : Transform σ) (s : σ)

/-- The visit of the nodes below a node without a runner. -/
theorem descendAlone?_eq (n : SharedNode) :
    descendAlone? region t n s = ((({} : Runner).serve history).descend? region t n s).upshot :=
  alone_answer history ⟨.descend n, t, s, region⟩ .strict

/-- The visit of a node without a runner. -/
theorem visitAlone?_eq (n : Option SharedNode) :
    visitAlone? region t n s = ((({} : Runner).serve history).visit? region t n s).upshot :=
  alone_answer history ⟨.visit n, t, s, region⟩ .strict

/-- The lenient visit of the nodes below a node without a runner. -/
theorem descendAlone_eq (n : SharedNode) :
    descendAlone region t n s = ((({} : Runner).serve history).descend region t n s).upshot :=
  alone_answer history ⟨.descend n, t, s, region⟩ .lenient

/-- The lenient visit of a node without a runner. -/
theorem visitAlone_eq (n : Option SharedNode) :
    visitAlone region t n s = ((({} : Runner).serve history).visit region t n s).upshot :=
  alone_answer history ⟨.visit n, t, s, region⟩ .lenient

/-- The lenient visit of a row without a runner. -/
theorem visitRowAlone_eq (row : SharedRow) :
    visitRowAlone region t row s = ((({} : Runner).serve history).visitRow region t row s).upshot :=
  alone_answer history ⟨.visitRow row, t, s, region⟩ .lenient

end Alone

namespace Runner

/-- After every history a runner comes to the same with a request as a runner with the same options that has not been
used, the record of the calls included. A pass that is run alone comes to the same as a runner with the default options
after the history.

The lenient form of a request leaves the state of the strict one. It succeeds with the result of the strict form, or
with the input if the strict form goes too deep. It breaks down with the message of the error if the strict form fails
on a removed child, or as the strict form does if the transform breaks down, and there is no other way for it to fail.

The totals are the sums of the counts of all requests since the last reset and the greatest of their depths, where a
request in which the transform breaks down does not count. -/
theorem serve_history (o : Options) (history : List Command) (q : Request σ) :
    let fresh : Runner := { options := o }
    let used := fresh.serve history
    let strict := used.answer q .strict
    let lenient := used.answer q .lenient
    (∀ mode, (used.answer q mode).Agrees (fresh.answer q mode) ∧
      (used.answer q.recorded mode).Agrees (fresh.answer q.recorded mode) ∧
      alone (fun r => r.answer q mode) = ((({} : Runner).serve history).answer q mode).upshot) ∧
    (lenient.state = strict.state ∧
      (∀ a, lenient.outcome = .ok a ↔
        strict.outcome = .ok a ∨ (∃ l k, strict.outcome = .error (.failed (.tooDeep l k))) ∧ a = q.op.input) ∧
      (∀ message, lenient.outcome = .error (.crashed message) ↔
        (∃ parent slot, strict.outcome = .error (.failed (.requiredRemoved parent slot)) ∧
          message = (PassError.requiredRemoved parent slot).message) ∨
        strict.outcome = .error (.crashed message)) ∧
      ∀ e, lenient.outcome ≠ .error (.failed e)) ∧
    used.totals = Stats.together ((sinceReset history).map (Command.counts o)) := by
  intro fresh used strict lenient
  have same : used.options = fresh.options := fresh.options_serve history
  have recovers : lenient = strict.recover q.op.input := used.answer_lenient q
  refine ⟨fun mode => ⟨used.answer_agrees same q mode, used.answer_agrees same q.recorded mode,
    alone_answer history q mode⟩, ?_, totals_serve o history⟩
  rw [recovers]
  exact ⟨strict.recover_state _, strict.recover_eq_ok _, strict.recover_eq_crashed _, strict.recover_ne_failed _⟩

end Runner

/-- A transform that takes every node for a block and empties it, and breaks down on all other nodes. -/
def Transform.emptying (region : Nat) : Transform Unit := fun n s =>
  match n.update .block (.cons (.row ⟨⟨region, 0⟩, {}, []⟩) .nil) with
  | .ok made => ⟨.ok (some (made.run { region, rows := 1 }).1), s, []⟩
  | .error e => ⟨.error e.message, s, []⟩

/-- When the transform breaks down the totals do not get what the run has counted until then. Here the leaf of a twig is
not a block. The run has opened a level and has visited a node, but the totals are as before. -/
theorem Runner.totals_serve_broken_down :
    let q : Request Unit := ⟨.descend Sample.twig, .emptying 2, (), 1⟩
    let report := ({} : Runner).answer q .strict
    let totals := (({} : Runner).serve [.ask .strict q]).totals
    report.outcome = .error (.crashed "update expected a Block node but was given a ThisKeyword node") ∧
      report.stats = { visited := 1, deepest := 1 } ∧ totals = {} ∧ totals ≠ Stats.together [report.stats] := by
  intro q report totals
  have stats : report.stats = { visited := 1, deepest := 1 } := by decide +kernel
  have lost : totals = {} := by decide +kernel
  refine ⟨rfl, stats, lost, ?_⟩
  rw [stats, lost]
  decide

end SharedTree.Pass
