import SharedTree.Proofs.Failure
import SharedTree.Proofs.Listing
import SharedTree.Sample

/-!
# The errors of a run

The errors of a run are raised exactly when they are due, at once, and they name the culprit.

* `Within.held`, `Within.answered` and `Within.deepest` tell what is known of a moment at which a run fails: which slot
  of which node it is about, what the transform has answered last, and how many levels are open.
* `Runner.perform_fails_exactly` is the statement for a run of a runner.
-/

namespace SharedTree

/-! ### Slots by name -/

section Slots

variable {α ρ : Type}

/-- A required slot is reported under its name, but for the type of an assertion. -/
theorem Kind.label_of_required {k : Kind} {s : Slot} (h : s ∈ k.slots) (required : s.arity = .one) :
    s.label = s.name ∨ k = .typeAssertionExpression ∧ k.slots.head? = some s ∧ s.label = "type" := by
  have all : ∀ s ∈ k.slots, s.arity = .one →
      s.label = s.name ∨ k = .typeAssertionExpression ∧ k.slots.head? = some s ∧ s.label = "type" := by
    cases k <;> decide
  exact all s h required

theorem Fields.Holds.mem {ss : List Slot} {fs : Fields α ρ ss} {s : Slot} {c : Child α ρ s.arity}
    (h : fs.Holds s c) : s ∈ ss := by
  induction h with
  | head c rest => exact List.mem_cons_self
  | tail d _ ih => exact List.mem_cons_of_mem _ ih

private theorem Fields.Holds.node?_eq {ss : List Slot} {fs : Fields α ρ ss} {s : Slot} {c : Child α ρ s.arity}
    (h : fs.Holds s c) (distinct : (ss.map Slot.name).Nodup) : fs.node? s.name = c.node? := by
  induction h with
  | head c rest => rw [Fields.node?, if_pos rfl]
  | @tail s r ss c rest d held ih =>
    rw [List.map_cons, List.nodup_cons] at distinct
    have different : r.name ≠ s.name := by
      intro same
      apply distinct.1
      rw [same]
      exact List.mem_map_of_mem held.mem
    rw [Fields.node?, if_neg different]
    exact ih distinct.2

end Slots

namespace Pass

open Transform (Call)

variable {σ α : Type}

/-! ### What is known of a moment -/

private theorem childOp?_ne_descend {a : Arity} (c : Child SharedNode SharedRow a) (n : SharedNode) :
    childOp? c ≠ some (.descend n) := by
  intro h
  cases c with
  | one m => cases h
  | opt m =>
    cases m with
    | none => cases h
    | some m => cases h
  | row r => cases h
  | optRow r =>
    cases r with
    | none => cases h
    | some r => cases h

private theorem node?_of_childOp? {a : Arity} {c : Child SharedNode SharedRow a} {n : SharedNode}
    (h : childOp? c = some (.visit (some n))) : c.node? = some n := by
  cases c with
  | one m =>
    cases h
    rfl
  | opt m =>
    cases m with
    | none => cases h
    | some m =>
      cases h
      rfl
  | row r => cases h
  | optRow r =>
    cases r with
    | none => cases h
    | some r => cases h

section Within

variable {t : Transform σ} {limit : Nat} {m m' : Moment σ} {p q : Progress σ}

private theorem Step.deepest (h : Step t limit p q) :
    p.stats.deepest ≤ q.stats.deepest ∧ q.stats.deepest ≤ max p.stats.deepest limit := by
  cases h with
  | asked n =>
    have same : (p.stats.heed n (t n p.state).answer).deepest = p.stats.deepest := by
      rcases (t n p.state).answer with message | _ | m <;> rfl
    show p.stats.deepest ≤ (p.stats.heed n (t n p.state).answer).deepest ∧ _ ≤ _
    rw [show (p.heed n (t n p.state)).stats.deepest = p.stats.deepest from same, same]
    omega
  | deepened d h =>
    show p.stats.deepest ≤ max p.stats.deepest d ∧ max p.stats.deepest d ≤ max p.stats.deepest limit
    omega
  | rowMade items span =>
    show p.stats.deepest ≤ p.stats.deepest ∧ p.stats.deepest ≤ max p.stats.deepest limit
    omega
  | nodeMade n fields =>
    obtain ⟨m, nodes, rebuilt, made, -⟩ := rebuild_frame n fields p
    rw [made]
    show p.stats.deepest ≤ p.stats.deepest ∧ p.stats.deepest ≤ max p.stats.deepest limit
    omega

/-- The greatest number of open levels only grows, and it never exceeds the limit. -/
theorem Reaches.deepest (h : Reaches t limit p q) :
    p.stats.deepest ≤ q.stats.deepest ∧ q.stats.deepest ≤ max p.stats.deepest limit := by
  induction h with
  | refl => omega
  | tail _ hstep ih =>
    have := hstep.deepest
    omega

/-- As many levels as are open at a moment have been counted. -/
theorem Within.deepest (h : Within t limit m m') (hm : m.above.length ≤ m.progress.stats.deepest) :
    m'.above.length ≤ m'.progress.stats.deepest := by
  induction h with
  | refl => exact hm
  | tail _ hn ih =>
    have grows := (Reaches.deepest hn.reaches).1
    cases hn with
    | answer h => exact Nat.le_trans ih grows
    | @child above place n p q s c op room inner held turn reach back =>
      have opened : (p.deepen (above.length + 1)).stats.deepest ≤ q.stats.deepest := (Reaches.deepest reach).1
      have counted : above.length + 1 ≤ (p.deepen (above.length + 1)).stats.deepest := Nat.le_max_right _ _
      exact Nat.le_trans counted opened
    | element mem reach back => exact Nat.le_trans ih grows

/-- A node that is visited in a slot is held there by the innermost open node. -/
theorem Within.held (h : Within t limit m m') (root : m.place = .root) {s : Slot} (hs : m'.place = .slot s)
    {n : SharedNode} (hn : m'.op = .visit (some n)) :
    ∃ parent up, ∃ c : Child SharedNode SharedRow s.arity, m'.above = parent :: up ∧ parent.fields.Holds s c ∧
      childOp? c = some (.visit (some n)) := by
  cases h with
  | refl =>
    rw [root] at hs
    cases hs
  | tail _ last =>
    -- only the descent below a node turns to a slot
    cases last with
    | answer h => cases hn
    | child room inner held turn reach back =>
      cases hs
      cases hn
      exact ⟨_, _, _, rfl, held, turn⟩
    | element mem reach back => cases hs

/-- The descent below a node is the beginning, or the node was the last answer of the transform. -/
theorem Within.answered (h : Within t limit m m') {n : SharedNode} (hn : m'.op = .descend n) :
    m' = m ∨ ∃ k, ∃ p : Progress σ, (t k p.state).answer = .ok (some n) ∧ m'.progress = p.heed k (t k p.state) := by
  cases h with
  | refl => exact .inl rfl
  | tail _ last =>
    right
    cases last with
    | answer h =>
      cases hn
      exact ⟨_, _, h, rfl⟩
    | child room inner held turn reach back =>
      cases hn
      exact absurd turn (childOp?_ne_descend _ _)
    | element mem reach back => cases hn

end Within

/-! ### The errors of a run -/

/-- At this moment the transform is asked about the node in a slot of the innermost open node, which must be filled, and
its answer is none. -/
structure Moment.RemovesRequired (t : Transform σ) (m : Moment (Logged σ)) (parent : SharedNode) (s : Slot)
    (n : SharedNode) : Prop where
  above : m.above.head? = some parent
  place : m.place = .slot s
  required : s.arity = .one
  op : m.op = .visit (some n)
  answer : (t n m.progress.state.1).answer = .ok none

/-- At this moment a level is due below a node when as many are open as the limit allows. -/
structure Moment.ExceedsLimit (limit : Nat) (m : Moment σ) (n : SharedNode) : Prop where
  op : m.op = .descend n
  full : m.above.length = limit

section Errors

variable {t : Transform σ} {limit : Nat}

theorem Moment.RemovesRequired.fails {m : Moment (Logged σ)} {parent : SharedNode} {s : Slot}
    {n : SharedNode} (h : m.RemovesRequired t parent s n) :
    m.Fails t.recorded limit (.failed (.requiredRemoved parent.kind s.label))
      (m.progress.heed n (t.recorded n m.progress.state)) := by
  obtain ⟨above, place, op, p⟩ := m
  obtain ⟨habove, rfl, required, rfl, answer⟩ := h
  cases above with
  | nil => cases habove
  | cons k up =>
    obtain rfl := Option.some.inj habove
    exact .removed required answer

theorem Moment.ExceedsLimit.fails {m : Moment σ} {t : Transform σ} {n : SharedNode} (h : m.ExceedsLimit limit n) :
    m.Fails t limit (.failed (.tooDeep limit n.kind)) m.progress := by
  obtain ⟨above, place, op, p⟩ := m
  obtain ⟨rfl, full⟩ := h
  exact .tooDeep full

private theorem Moment.Fails.removesRequired {m : Moment (Logged σ)} {parent : Kind} {label : String}
    {q : Progress (Logged σ)} (h : m.Fails t.recorded limit (.failed (.requiredRemoved parent label)) q) :
    ∃ node s n, m.RemovesRequired t node s n ∧ node.kind = parent ∧ s.label = label := by
  cases h with
  | removed required answer => exact ⟨_, _, _, ⟨rfl, rfl, required, rfl, answer⟩, rfl, rfl⟩

private theorem Moment.Fails.exceedsLimit {m : Moment σ} {t : Transform σ} {l : Nat} {k : Kind} {q : Progress σ}
    (h : m.Fails t limit (.failed (.tooDeep l k)) q) : ∃ n, m.ExceedsLimit limit n ∧ l = limit ∧ k = n.kind := by
  cases h with
  | tooDeep full => exact ⟨_, ⟨rfl, full⟩, rfl, rfl⟩

private theorem Moment.not_fails_of_spares {m : Moment (Logged σ)} (hp : m.place.Spares) {n : SharedNode}
    (op : m.op = .visit (some n)) (answer : (t n m.progress.state.1).answer = .ok none) (e : Halt)
    (q : Progress (Logged σ)) : ¬ m.Fails t.recorded limit e q := by
  obtain ⟨above, place, op', p⟩ := m
  obtain rfl : op' = .visit (some n) := op
  exact hp.not_fails answer e q

end Errors

section Runner

variable {r : Runner} {region : Nat} {t : Transform σ} {op : Op} {s : σ} {m : Moment (Logged σ)}

private theorem Runner.tracks (r : Runner) (region : Nat) (t : Transform σ) (op : Op) (s : σ) :
    Tracks t r.options.limit (r.moments region t.recorded op (s, [])) (.start region op.entry (s, []))
      (op.run t.recorded r.options.limit r.options.limit (.start region op.entry (s, []))) := op.tracks _

private theorem Runner.within (hm : m ∈ r.moments region t.recorded op (s, [])) :
    Within t.recorded r.options.limit ⟨[], .root, op, .start region op.entry (s, [])⟩ m :=
  op.within_of_mem_moments _ m hm

/-- The calls of a run are those of the visits among its moments. -/
theorem Runner.calls_eq (r : Runner) (region : Nat) (t : Transform σ) (op : Op) (s : σ) :
    (r.perform region t.recorded op (s, [])).state.2.reverse =
      (r.moments region t.recorded op (s, [])).filterMap (Moment.call? t) := by
  have calls := (r.tracks region t op s).calls
  rw [Runner.perform_eq, Runner.conclude_state, calls]
  show (_ ++ []).reverse = _
  rw [List.append_nil, List.reverse_reverse]

/-- A run fails at a moment at which it has to, and that moment is the last one. -/
theorem Runner.fails_at (hm : m ∈ r.moments region t.recorded op (s, [])) {e : Halt}
    {q : Progress (Logged σ)} (fails : m.Fails t.recorded r.options.limit e q) :
    (r.perform region t.recorded op (s, [])).outcome = .error e ∧
      (r.perform region t.recorded op (s, [])).state = q.state ∧
      (r.perform region t.recorded op (s, [])).stats = q.stats ∧
      (r.moments region t.recorded op (s, [])).getLast? = some m := by
  obtain ⟨result, last⟩ := (r.tracks region t op s).error_of_fails hm fails
  rw [Runner.perform_eq, Runner.conclude_outcome, Runner.conclude_state, Runner.conclude_stats, result]
  exact ⟨rfl, rfl, rfl, last⟩

/-- When a run fails, it has to at its last moment. -/
theorem Runner.fails_at_last {e : Halt} (h : (r.perform region t.recorded op (s, [])).outcome = .error e) :
    ∃ m ∈ r.moments region t.recorded op (s, []), (r.moments region t.recorded op (s, [])).getLast? = some m ∧
      ∃ q, m.Fails t.recorded r.options.limit e q := by
  rw [Runner.perform_eq, Runner.conclude_outcome] at h
  obtain ⟨m, hm, last, fails⟩ := (r.tracks region t op s).fails_of_error (outcome_eq_error h)
  exact ⟨m, hm, last, _, fails⟩

private theorem Runner.requiredRemoved_iff (parent : Kind) (label : String) :
    (r.perform region t.recorded op (s, [])).outcome = .error (.failed (.requiredRemoved parent label)) ↔
      ∃ m ∈ r.moments region t.recorded op (s, []), ∃ node slot n,
        m.RemovesRequired t node slot n ∧ node.kind = parent ∧ slot.label = label := by
  constructor
  · intro h
    obtain ⟨m, hm, -, q, fails⟩ := Runner.fails_at_last h
    exact ⟨m, hm, fails.removesRequired⟩
  · rintro ⟨m, hm, node, slot, n, removes, rfl, rfl⟩
    exact (Runner.fails_at hm removes.fails).1

private theorem Runner.tooDeep_iff (l : Nat) (k : Kind) :
    (r.perform region t.recorded op (s, [])).outcome = .error (.failed (.tooDeep l k)) ↔
      ∃ m ∈ r.moments region t.recorded op (s, []), ∃ n,
        m.ExceedsLimit r.options.limit n ∧ l = r.options.limit ∧ k = n.kind := by
  constructor
  · intro h
    obtain ⟨m, hm, -, q, fails⟩ := Runner.fails_at_last h
    exact ⟨m, hm, fails.exceedsLimit⟩
  · rintro ⟨m, hm, n, exceeds, rfl, rfl⟩
    exact (Runner.fails_at hm exceeds.fails).1

/-- What is known when a required node is removed: it is the node in that slot, by the name of the slot. -/
private theorem Runner.held_of_removes (hm : m ∈ r.moments region t.recorded op (s, [])) {node : SharedNode}
    {slot : Slot} {n : SharedNode} (removes : m.RemovesRequired t node slot n) :
    slot ∈ node.kind.slots ∧ node.node? slot.name = some n ∧
      (slot.label = slot.name ∨ node.kind = .typeAssertionExpression ∧ node.kind.slots.head? = some slot ∧
        slot.label = "type") := by
  obtain ⟨parent, up, c, above, held, turn⟩ := (Runner.within hm).held rfl removes.place removes.op
  obtain rfl : parent = node := by
    have head := removes.above
    rw [above] at head
    exact Option.some.inj head
  refine ⟨held.mem, ?_, Kind.label_of_required held.mem removes.required⟩
  unfold Node.node?
  rw [held.node?_eq parent.kind.slots_nodup, node?_of_childOp? turn]

/-- What is known when a level is due that the limit does not allow: the node is the last answer or that at the root,
and all levels that the limit allows have been counted. -/
private theorem Runner.answered_of_exceeds (hm : m ∈ r.moments region t.recorded op (s, [])) {n : SharedNode}
    (exceeds : m.ExceedsLimit r.options.limit n) :
    (m.progress.state.2 = [] ∧ op = .descend n ∨
      ∃ c, m.progress.state.2.head? = some c ∧ c.answer = .ok (some n)) ∧
      m.progress.stats.deepest = r.options.limit := by
  constructor
  · rcases (Runner.within hm).answered exceeds.op with rfl | ⟨k, p, answer, hp⟩
    · exact .inl ⟨rfl, exceeds.op⟩
    · refine .inr ⟨t.call k p.state.1, ?_, answer⟩
      rw [hp]
      rfl
  · have opened : m.above.length ≤ m.progress.stats.deepest := (Runner.within hm).deepest (Nat.zero_le _)
    have bounded : m.progress.stats.deepest ≤ max 0 r.options.limit := (Reaches.deepest (Runner.within hm).reaches).2
    have full := exceeds.full
    omega

/-- A run fails exactly when it is due, at once, and its error names the culprit. The calls of a run are those of the
visits among its moments.

It fails because a required node was removed if and only if the transform has removed the node in a slot that must be
filled. That is the last moment, its call is the last one, and the error names the kind of the innermost open node and
the slot in which it holds the node. No run fails at another moment at which a node is removed.

It fails because it went too deep if and only if a level is due when as many are open as the limit allows. That is the
last moment, and no call follows. The error names the limit and the kind of the last answer or, before all calls, of the
node at the root, and as many levels as the limit allows have been counted. -/
theorem Runner.perform_fails_exactly (r : Runner) (region : Nat) (t : Transform σ) (op : Op) (s : σ) :
    let ms := r.moments region t.recorded op (s, [])
    let report := r.perform region t.recorded op (s, [])
    report.state.2.reverse = ms.filterMap (Moment.call? t) ∧
    (∀ parent label, report.outcome = .error (.failed (.requiredRemoved parent label)) ↔
      ∃ m ∈ ms, ∃ node slot n, m.RemovesRequired t node slot n ∧ node.kind = parent ∧ slot.label = label) ∧
    (∀ m ∈ ms, ∀ node slot n, m.RemovesRequired t node slot n →
      ms.getLast? = some m ∧ report.state.2 = t.call n m.progress.state.1 :: m.progress.state.2 ∧
        slot ∈ node.kind.slots ∧ node.node? slot.name = some n ∧
          (slot.label = slot.name ∨ node.kind = .typeAssertionExpression ∧
            node.kind.slots.head? = some slot ∧ slot.label = "type")) ∧
    (∀ m ∈ ms, ∀ n, m.op = .visit (some n) → (t n m.progress.state.1).answer = .ok none → m.place.Spares →
      ∀ e, report.outcome = .error e → ms.getLast? ≠ some m) ∧
    (∀ l k, report.outcome = .error (.failed (.tooDeep l k)) ↔
      ∃ m ∈ ms, ∃ n, m.ExceedsLimit r.options.limit n ∧ l = r.options.limit ∧ k = n.kind) ∧
    ∀ m ∈ ms, ∀ n, m.ExceedsLimit r.options.limit n →
      ms.getLast? = some m ∧ report.state.2 = m.progress.state.2 ∧
        (report.state.2 = [] ∧ op = .descend n ∨
          ∃ c, report.state.2.head? = some c ∧ c.answer = .ok (some n)) ∧
        report.stats.deepest = r.options.limit := by
  intro ms report
  refine ⟨r.calls_eq region t op s, Runner.requiredRemoved_iff, ?_, ?_, Runner.tooDeep_iff, ?_⟩
  · intro m hm node slot n removes
    obtain ⟨-, state, -, last⟩ := Runner.fails_at hm removes.fails
    exact ⟨last, congrArg Prod.snd state, Runner.held_of_removes hm removes⟩
  · intro m hm n visits answer spares e h last
    obtain ⟨m', -, last', q, fails⟩ := Runner.fails_at_last h
    obtain rfl : m' = m := Option.some.inj (last'.symm.trans last)
    exact Moment.not_fails_of_spares spares visits answer _ _ fails
  · intro m hm n exceeds
    obtain ⟨-, state, stats, last⟩ := Runner.fails_at hm exceeds.fails
    have calls : report.state.2 = m.progress.state.2 := congrArg Prod.snd state
    obtain ⟨answered, deepest⟩ := Runner.answered_of_exceeds hm exceeds
    refine ⟨last, calls, ?_, (congrArg Stats.deepest stats).trans deepest⟩
    rw [calls]
    exact answered

end Runner

/-- The expression of a statement must not be removed. -/
example : (({ options := { maxDepth := 3 } } : Runner).perform 1 (Transform.swapping 1 none)
    (.visit (some Sample.twig)) 0).outcome =
      .error (.failed (.requiredRemoved .expressionStatement "expression")) := rfl

end Pass

end SharedTree
