import SharedTree.Proofs.Balance
import SharedTree.Proofs.History
import SharedTree.Proofs.Ledger

/-!
# What the events of a run tell

If the transform reports no events of its own, the events of a run are determined by its calls: one event about each
call that did not keep its node, in the order of the calls. They are followed by the counters, and these agree with the
events, with the calls and with the descents that have come back with another node.

* `Tells` is the agreement between the trace, the record of the calls and the counters. Every step of a run keeps it.
* `Affords` bounds the nodes that are removed or made again by those that are visited.
* `Runner.answer_tells` is the statement for both forms of a request.
-/

namespace SharedTree.Pass

open Transform (Call)

variable {σ α β : Type}

/-- The transform reports no events. -/
def Transform.Silent (t : Transform σ) : Prop := ∀ n s, (t n s).events = []

/-- What a run reports about a call: one event unless the node was kept or the transform has broken down. -/
def Transform.Call.events (c : Call σ) : List Event := answerEvents c.node c.answer

def Event.isReplaced : Event → Bool
  | .replaced .. => true
  | _ => false

def Event.isRemoved : Event → Bool
  | .removed .. => true
  | _ => false

/-! ### Trace, record and counters -/

/-- The trace of a run and its counters agree with the calls on record. -/
structure Tells (entry : Entry) (p : Progress (Logged σ)) : Prop where
  trace : p.trace = p.state.2.flatMap Call.events ++ [.opened entry]
  visited : p.stats.visited = p.state.2.length
  replaced : p.stats.replaced = (p.state.2.flatMap Call.events).countP Event.isReplaced
  removed : p.stats.removed = (p.state.2.flatMap Call.events).countP Event.isRemoved
  bound : p.stats.replaced + p.stats.removed ≤ p.stats.visited

section Tells

variable {t : Transform σ} {limit : Nat} {entry : Entry} {p q : Progress (Logged σ)}

theorem Tells.start (region : Nat) (s : σ) : Tells entry (.start region entry (s, [])) :=
  ⟨rfl, rfl, rfl, rfl, Nat.le_refl 0⟩

/-- An answer is counted as it is reported. -/
private theorem stats_heed (s : Stats) (n : SharedNode) (answer : Except String (Option SharedNode)) :
    (s.heed n answer).visited = s.visited + 1 ∧
      (s.heed n answer).replaced = (answerEvents n answer).countP Event.isReplaced + s.replaced ∧
      (s.heed n answer).removed = (answerEvents n answer).countP Event.isRemoved + s.removed ∧
      (s.heed n answer).replaced + (s.heed n answer).removed ≤ s.replaced + s.removed + 1 := by
  rcases answer with message | _ | m
  · simp [Stats.heed, answerEvents]
  · simp [Stats.heed, answerEvents, Event.isReplaced, Event.isRemoved, Nat.add_assoc, Nat.add_comm]
  · cases h : m.same n
    · simp [Stats.heed, answerEvents, h, Event.isReplaced, Event.isRemoved]
      omega
    · simp [Stats.heed, answerEvents, h]

private theorem Tells.of_asked (silent : t.Silent) (n : SharedNode) (h : Tells entry p) :
    Tells entry (p.heed n (t.recorded n p.state)) := by
  obtain ⟨visited, replaced, removed, bound⟩ := stats_heed p.stats n (t n p.state.1).answer
  have quiet : (t.recorded n p.state).events = [] := silent n p.state.1
  have listed : (p.heed n (t.recorded n p.state)).state.2.flatMap Call.events =
      answerEvents n (t n p.state.1).answer ++ p.state.2.flatMap Call.events := rfl
  refine ⟨?_, visited.trans (congrArg (· + 1) h.visited), ?_, ?_, ?_⟩
  · rw [listed, List.append_assoc, ← h.trace, Progress.heed, quiet]
    rfl
  · rw [listed, List.countP_append, ← h.replaced]
    exact replaced
  · rw [listed, List.countP_append, ← h.removed]
    exact removed
  · have := h.bound
    show (p.stats.heed n (t n p.state.1).answer).replaced + (p.stats.heed n (t n p.state.1).answer).removed ≤
      (p.stats.heed n (t n p.state.1).answer).visited
    omega

theorem Tells.of_step (silent : t.Silent) (step : Step t.recorded limit p q) (h : Tells entry p) : Tells entry q := by
  cases step with
  | asked n => exact h.of_asked silent n
  | deepened d _ => exact ⟨h.trace, h.visited, h.replaced, h.removed, h.bound⟩
  | rowMade items span => exact ⟨h.trace, h.visited, h.replaced, h.removed, h.bound⟩
  | nodeMade n fields =>
    obtain ⟨m, nodes, rebuilt, made, -⟩ := rebuild_frame n fields p
    rw [made]
    exact ⟨h.trace, h.visited, h.replaced, h.removed, h.bound⟩

theorem Tells.of_reaches (silent : t.Silent) (reaches : Reaches t.recorded limit p q) (h : Tells entry p) :
    Tells entry q := by
  induction reaches with
  | refl => exact h
  | tail _ step ih => exact ih.of_step silent step

/-- There is one event about a call at most, so that the calls in order have their events in order. -/
private theorem flatMap_events_reverse (calls : List (Call σ)) :
    calls.reverse.flatMap Call.events = (calls.flatMap Call.events).reverse := by
  have single : List.reverse ∘ Call.events = (Call.events : Call σ → List Event) := by
    funext c
    show (answerEvents c.node c.answer).reverse = answerEvents c.node c.answer
    unfold answerEvents
    split
    · rfl
    · rfl
    · split <;> rfl
  rw [List.reverse_flatMap, single]

end Tells

/-! ### Removed and renewed nodes against visits -/

/-- The nodes that a computation removes or makes again are no more than those that it visits and a number of others. -/
def Affords (others : Nat) (x : Run σ α) : Prop :=
  ∀ p, (after (x p)).stats.rebuilt + (after (x p)).stats.removed + p.stats.visited ≤
    p.stats.rebuilt + p.stats.removed + (after (x p)).stats.visited + others

section Affords

variable {t : Transform σ} {limit : Nat}

private theorem Affords.bind {x : Run σ α} {f : α → Run σ β} {k l : Nat} (hx : Affords k x)
    (hf : ∀ a, Affords l (f a)) : Affords (k + l) (x >>= f) := by
  intro p
  have first := hx p
  cases h : x p with
  | ok a q =>
    rw [h] at first
    rw [bind_of_ok h]
    have second := hf a q
    simp only [after] at first
    omega
  | error e q =>
    rw [h] at first
    rw [bind_of_error h]
    simp only [after] at first ⊢
    omega

private theorem affords_congruence : Congruence fun {α : Type} (x : Run σ α) (_ : Run σ α) => Affords 0 x where
  pure _ := fun _ => Nat.le_refl _
  fail _ := fun _ => Nat.le_refl _
  row _ _ := fun _ => Nat.le_refl _
  bind hx hf := hx.bind hf

private theorem rebuild_affords (n : SharedNode) (fields : Fields SharedNode SharedRow n.kind.slots) :
    Affords 1 (rebuild n fields : Run σ SharedNode) := by
  intro p
  obtain ⟨m, nodes, rebuilt, made, -, -, one⟩ := rebuild_frame n fields p
  rw [made]
  simp only [after]
  omega

/-- The visit of a node pays for the node itself, be it that it is removed or that the answer is made again. -/
private theorem visitWith_affords {below : SharedNode → Run σ SharedNode} (hb : ∀ n, Affords 1 (below n))
    (n : SharedNode) : Affords 0 (visitWith t below n) := by
  intro p
  have heeded {answer : Except String (Option SharedNode)} (h : (t n p.state).answer = answer) :
      (p.heed n (t n p.state)).stats = p.stats.heed n answer := congrArg (p.stats.heed n) h
  cases h : (t n p.state).answer with
  | error message =>
    rw [visitWith_crashed h]
    simp only [after, heeded h, Stats.heed]
    omega
  | ok answer =>
    cases answer with
    | none =>
      rw [visitWith_none h]
      simp only [after, heeded h, Stats.heed]
      omega
    | some m =>
      rw [visitWith_some h]
      have deeper : Affords 1 (below m >>= fun m' => pure (some m')) :=
        (hb m).bind (l := 0) fun _ _ => Nat.le_refl _
      have paid := deeper (p.heed n (t n p.state))
      simp only [heeded h, Stats.heed] at paid
      omega

private theorem descend_affords (budget : Nat) (n : SharedNode) : Affords 1 (descend t limit budget n) := by
  induction budget generalizing n with
  | zero => exact fun _ => Nat.le_succ _
  | succ budget ih =>
    intro p
    cases hn : n.kind.isTerminal with
    | true =>
      rw [descend_terminal t limit budget p hn]
      exact Nat.le_succ _
    | false =>
      rw [descend_inner t limit budget p hn]
      have fields : Affords 0 (visitFields (visitWith t (descend t limit budget)) n.kind n.fields) :=
        affords_congruence.visitFields (w := visit t limit budget) (visitWith_affords ih) n.kind n.fields
      exact fields.bind (rebuild_affords n) (p.deepen (limit - budget))

/-- An operation pays for all nodes but the one that it descends below. -/
private theorem Op.run_affords (budget : Nat) (op : Op) :
    Affords 1 (op.run t limit budget) ∧ ((∀ n, op ≠ .descend n) → Affords 0 (op.run t limit budget)) := by
  have visits : ∀ n, Affords 0 (Pass.visit t limit budget n) := visitWith_affords (descend_affords budget)
  have free {α : Type} {x : Run σ α} (h : Affords 0 x) : Affords 1 x := fun p => Nat.le_succ_of_le (h p)
  cases op with
  | descend n => exact ⟨descend_affords budget n, fun other => absurd rfl (other n)⟩
  | visit n =>
    have paid : Affords 0 ((Op.visit n).run t limit budget) := by
      cases n with
      | none => exact fun _ => Nat.le_refl _
      | some n => exact visits n
    exact ⟨free paid, fun _ => paid⟩
  | visitRow r =>
    have paid : Affords 0 ((Op.visitRow r).run t limit budget) :=
      affords_congruence.visitRowWith (w := Pass.visit t limit budget) visits r
    exact ⟨free paid, fun _ => paid⟩

end Affords

/-! ### The events of a request -/

/-- What is reported when a request has been given up. -/
def warnings : Mode → Except Halt α → List Event
  | .lenient, .error (.failed (.tooDeep limit kind)) => [.abandoned (.tooDeep limit kind)]
  | _, _ => []

section Conclude

variable (r : Runner)

private theorem Runner.conclude_events {result : EStateM.Result Halt (Progress σ) α}
    (ran : ∀ message, outcome result ≠ .error (.crashed message)) :
    (r.conclude result).events =
      (after result).trace.reverse ++ [.finished (after result).stats (outcome result).isOk, .closed] := by
  rcases result with ⟨a, p⟩ | ⟨e | message, p⟩
  · show ([Event.closed, .finished p.stats true] ++ p.trace).reverse = _
    rw [List.reverse_append]
    rfl
  · show ([Event.closed, .finished p.stats false] ++ p.trace).reverse = _
    rw [List.reverse_append]
    rfl
  · exact absurd rfl (ran message)

private theorem Runner.conclude_events_crashed {result : EStateM.Result Halt (Progress σ) α} {message : String}
    (crashed : outcome result = .error (.crashed message)) :
    (r.conclude result).events = (after result).trace.reverse ++ [.closed] := by
  rw [outcome_eq_error crashed]
  exact List.reverse_cons

end Conclude

/-- The lenient form adds no more than a warning to the events of the strict form. -/
private theorem Runner.answer_events (r : Runner) (q : Request σ) (mode : Mode) :
    (r.answer q mode).events = (r.answer q .strict).events ++ warnings mode (r.answer q .strict).outcome := by
  cases mode with
  | strict => exact (List.append_nil _).symm
  | lenient =>
    rw [answer_lenient]
    rcases r.answer q .strict with ⟨((⟨l, k⟩ | ⟨parent, slot⟩) | message) | a, state, runner, events, stats, supply⟩
    · rfl
    all_goals exact (List.append_nil _).symm

private theorem Runner.answer_counts (r : Runner) (q : Request σ) (mode : Mode) :
    (r.answer q mode).state = (r.answer q .strict).state ∧ (r.answer q mode).stats = (r.answer q .strict).stats := by
  cases mode with
  | strict => exact ⟨rfl, rfl⟩
  | lenient =>
    rw [answer_lenient]
    exact ⟨Report.recover_state _ _, Report.recover_stats _ _⟩

/-- What a request reports if the transform reports nothing: between the event that opens the run and the one that
closes it there are the events about the calls, in order, and then the counters, with the word whether the strict form
of the request succeeds. After that the lenient form warns if the strict form goes too deep. If the transform breaks
down, the run is closed without the counters.

The counters are the number of calls, of either sort of events about them, and of the descents that have come back with
another node. No more nodes are replaced and removed than visited, and no more are removed and made again, except for
the node below which a descent is asked for. -/
theorem Runner.answer_tells (r : Runner) (q : Request σ) (mode : Mode) (silent : q.transform.Silent) :
    let t := q.transform.recorded
    let report := r.answer q.recorded mode
    let outcome := (r.answer q.recorded .strict).outcome
    let told := report.state.2.reverse.flatMap Call.events
    ((∀ message, outcome ≠ .error (.crashed message)) →
      report.events =
        .opened q.op.entry :: told ++ [.finished report.stats outcome.isOk, .closed] ++ warnings mode outcome) ∧
    (∀ message, outcome = .error (.crashed message) → report.events = .opened q.op.entry :: told ++ [.closed]) ∧
    (report.stats.visited = report.state.2.length ∧
      report.stats.replaced = told.countP Event.isReplaced ∧ report.stats.removed = told.countP Event.isRemoved ∧
      report.stats.rebuilt = (r.moments q.region t q.op (q.state, [])).countP (Moment.renews t r.options.limit)) ∧
    report.stats.replaced + report.stats.removed ≤ report.stats.visited ∧
    report.stats.rebuilt + report.stats.removed ≤ report.stats.visited + 1 ∧
    ((∀ n, q.op ≠ .descend n) → report.stats.rebuilt + report.stats.removed ≤ report.stats.visited) := by
  intro t report outcome told
  let start : Progress (Logged σ) := .start q.region q.op.entry (q.state, [])
  let result := q.op.run t r.options.limit r.options.limit start
  have strict : r.answer q.recorded .strict = r.conclude result := r.perform_eq q.region t q.op (q.state, [])
  have ends : outcome = Pass.outcome result := by
    show (r.answer q.recorded .strict).outcome = _
    rw [strict, conclude_outcome]
  have state : report.state = (after result).state := by
    rw [(r.answer_counts q.recorded mode).1, strict, conclude_state]
  have stats : report.stats = (after result).stats := by
    rw [(r.answer_counts q.recorded mode).2, strict, conclude_stats]
  have events : report.events = (r.conclude result).events ++ warnings mode outcome := by
    rw [r.answer_events q.recorded mode, strict, ends, conclude_outcome]
  have tells : Tells q.op.entry (after result) :=
    (Tells.start q.region q.state).of_reaches silent (q.op.run_moves r.options.limit start)
  have listed : told = ((after result).state.2.flatMap Call.events).reverse := by
    rw [← flatMap_events_reverse, ← state]
  have trace : (after result).trace.reverse = .opened q.op.entry :: told := by
    rw [tells.trace, List.reverse_append, ← listed]
    rfl
  have renewed := (renewals t r.options.limit).of_run q.op start
  have paid : Affords 1 (q.op.run t r.options.limit r.options.limit) ∧
      ((∀ n, q.op ≠ .descend n) → Affords 0 (q.op.run t r.options.limit r.options.limit)) := q.op.run_affords _
  rw [stats]
  refine ⟨fun ran => ?_, fun message crashed => ?_, ⟨?_, ?_, ?_, renewed⟩, tells.bound, ?_, fun other => ?_⟩
  · rw [events, r.conclude_events (ends ▸ ran), trace, ← ends]
    rfl
  · rw [events, r.conclude_events_crashed (ends ▸ crashed), trace, crashed]
    cases mode <;> exact List.append_nil _
  · rw [state, tells.visited]
  · rw [listed, List.countP_reverse, tells.replaced]
  · rw [listed, List.countP_reverse, tells.removed]
  · have bound : (after result).stats.rebuilt + (after result).stats.removed + 0 ≤
        0 + 0 + (after result).stats.visited + 1 := paid.1 start
    omega
  · have bound : (after result).stats.rebuilt + (after result).stats.removed + 0 ≤
        0 + 0 + (after result).stats.visited + 0 := paid.2 other start
    omega

/-- Of two leaves in a row the first one is removed. A list comes in place of the second one, but there is no level left
for it, and the request is given up. -/
theorem Runner.answer_tells_sheaf :
    let list := Sample.sheaf [⟨2, 0⟩] ⟨2, 1⟩
    let q : Request Nat := ⟨.descend (Sample.sheaf [⟨0, 0⟩, ⟨0, 1⟩] ⟨0, 2⟩), .pruning list, 0, 1⟩
    let report := ({ options := { maxDepth := 1 } } : Runner).answer q.recorded .lenient
    report.events = [.opened (.descend .arrayLiteralExpression), .removed .thisKeyword 0,
      .replaced .thisKeyword .arrayLiteralExpression 0,
      .finished { visited := 2, replaced := 1, removed := 1, deepest := 1 } false, .closed,
      .abandoned (.tooDeep 1 .arrayLiteralExpression)] := by
  intro list q report
  have silent : q.transform.Silent := fun _ _ => rfl
  have ran : (({ options := { maxDepth := 1 } } : Runner).answer q.recorded .strict).outcome =
      .error (.failed (.tooDeep 1 .arrayLiteralExpression)) := by rfl
  exact (Runner.answer_tells { options := { maxDepth := 1 } } q .lenient silent).1 (by rw [ran]; exact nofun)

/-- When the transform breaks down, the counters are not reported, although the transform itself has reported
nothing. -/
theorem Runner.no_summary_broken_down :
    let q : Request Unit := ⟨.descend Sample.twig, .emptying 2, (), 1⟩
    let report := ({} : Runner).answer q .strict
    q.transform.Silent ∧
      report.outcome = .error (.crashed "update expected a Block node but was given a ThisKeyword node") ∧
      report.events = [.opened (.descend .expressionStatement), .closed] ∧
      ∀ s ok, Event.finished s ok ∉ report.events := by
  intro q report
  have silent : q.transform.Silent := by
    intro n s
    show (Transform.emptying 2 n s).events = []
    unfold Transform.emptying
    split <;> rfl
  have events : report.events = [.opened (.descend .expressionStatement), .closed] := by rfl
  refine ⟨silent, rfl, events, fun s ok h => ?_⟩
  rw [events] at h
  simp at h

end SharedTree.Pass
