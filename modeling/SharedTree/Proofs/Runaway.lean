import SharedTree.Proofs.History

/-!
# Runaway transforms

A transform may answer each node with one that has a child, and so on for the child: the pass then never gets to a leaf,
whatever tree it began with. Only the limit of levels ends such a pass. It does so after as many calls as there are
levels, since the pass is always at the first child of the last answer and the failure leaves all rows and slots above
it at once.

* `Transform.Pursuit` are calls each of which is about the first child of the answer before.
* `visitFields_first` says that a visit which fails at the first child below a node ends the visit of all slots.
* `descend_runaway` is the induction over the levels, and `Runner.perform_runaway` the statement for the runs of a
  runner.
-/

namespace SharedTree.Pass

open Transform (Call)

variable {σ α β : Type}

/-- In every state the answer about any node is a node that has a child and is not terminal. -/
def Transform.Runaway (t : Transform σ) : Prop :=
  ∀ n s, ∃ m, (t n s).answer = .ok (some m) ∧ m.kind.isTerminal = false ∧ m.children ≠ []

/-- Calls of a transform in order, each in the state that the one before has left. The first is about a given node, and
every other one about the first child of the answer before it. -/
inductive Transform.Pursuit (t : Transform σ) : SharedNode → σ → List (Call σ) → Prop
  | nil (n : SharedNode) (s : σ) : Pursuit t n s []
  | cons {n m c : SharedNode} {s : σ} {calls : List (Call σ)} (answer : (t n s).answer = .ok (some m))
      (first : m.children.head? = some c) (others : Pursuit t c (t n s).state calls) :
      Pursuit t n s (t.call n s :: calls)

/-! ### The first child -/

section First

variable {visit : SharedNode → Run σ (Option SharedNode)} {parent : Kind} {p : Progress σ}

/-- Where no node is, none is visited. -/
theorem visitChild_vacant {label : String} {a : Arity} {c : Child SharedNode SharedRow a} (h : c.nodes = []) :
    visitChild visit parent label c p = .ok c p := by
  have row {r : SharedRow} (empty : r.items = []) : visitRowWith visit r p = .ok r p := by
    have none_left : visitItems visit r.items p = .ok none p := by
      rw [empty]
      rfl
    exact visitRowWith_unchanged none_left
  cases c with
  | one n => exact absurd h (List.cons_ne_nil n [])
  | opt n =>
    cases n with
    | none => rfl
    | some n => exact absurd h (List.cons_ne_nil n [])
  | row r => exact bind_of_ok (row h)
  | optRow r =>
    cases r with
    | none => rfl
    | some r => exact bind_of_ok (row h)

variable {n : SharedNode} {e : Halt} {q : Progress σ} (failed : visit n p = .error e q)

include failed

private theorem visitItems_first {ns : List SharedNode} (h : ns.head? = some n) :
    visitItems visit ns p = .error e q := by
  obtain ⟨behind, rfl⟩ := List.head?_eq_some_iff.mp h
  exact bind_of_error failed

private theorem visitChild_first {label : String} {a : Arity} {c : Child SharedNode SharedRow a}
    (h : c.nodes.head? = some n) : visitChild visit parent label c p = .error e q := by
  cases c with
  | one m =>
    obtain rfl := Option.some.inj h
    exact visitChild_one_error failed
  | opt m =>
    cases m with
    | none => cases h
    | some m =>
      obtain rfl := Option.some.inj h
      exact bind_of_error failed
  | row r => exact bind_of_error (visitRowWith_error (visitItems_first failed h))
  | optRow r =>
    cases r with
    | none => cases h
    | some r => exact bind_of_error (visitRowWith_error (visitItems_first failed h))

/-- A visit that fails at the first node below another one ends the visit of its slots. -/
theorem visitFields_first {ss : List Slot} {fs : Fields SharedNode SharedRow ss} (h : fs.nodes.head? = some n) :
    visitFields visit parent fs p = .error e q := by
  induction fs with
  | nil => cases h
  | @cons s ss c rest ih =>
    rw [Fields.nodes] at h
    -- slots in front of the first node hold none, and their visit does nothing
    cases vacant : c.nodes with
    | nil =>
      rw [vacant, List.nil_append] at h
      rw [visitFields, bind_of_ok (visitChild_vacant vacant)]
      exact bind_of_error (ih h)
    | cons m others =>
      have first : c.nodes.head? = some n := by
        rw [vacant] at h ⊢
        exact h
      exact bind_of_error (visitChild_first failed first)

end First

/-! ### Going too deep -/

/-- From a point of a run a computation goes too deep after a number of calls, which begin at a node and pursue the
first children of the answers. All levels have been opened by then, and nothing was removed or made again. -/
def Exhausts (t : Transform σ) (limit : Nat) (n : SharedNode) (count : Nat) (p : Progress (Logged σ))
    (x : Run (Logged σ) α) : Prop :=
  ∃ k calls q, x p = .error (.failed (.tooDeep limit k)) q ∧ q.state.2 = calls.reverse ++ p.state.2 ∧
    calls.length = count ∧ t.Pursuit n p.state.1 calls ∧ q.stats.deepest = limit ∧
    q.stats.visited = p.stats.visited + count ∧ q.stats.removed = p.stats.removed ∧ q.stats.rebuilt = p.stats.rebuilt

section Exhausts

variable {t : Transform σ} {limit count : Nat} {n : SharedNode} {p : Progress (Logged σ)}

theorem Exhausts.bind {x : Run (Logged σ) α} (h : Exhausts t limit n count p x) (f : α → Run (Logged σ) β) :
    Exhausts t limit n count p (x >>= f) := by
  obtain ⟨k, calls, q, failed, rest⟩ := h
  exact ⟨k, calls, q, bind_of_error failed, rest⟩

theorem Exhausts.visitFields {visit : SharedNode → Run (Logged σ) (Option SharedNode)}
    (h : Exhausts t limit n count p (visit n)) (parent : Kind) {ss : List Slot} {fs : Fields SharedNode SharedRow ss}
    (first : fs.nodes.head? = some n) : Exhausts t limit n count p (visitFields visit parent fs) := by
  obtain ⟨k, calls, q, failed, rest⟩ := h
  exact ⟨k, calls, q, visitFields_first failed first, rest⟩

private theorem Exhausts.of_deepen {x y : Run (Logged σ) α} {d : Nat} (h : Exhausts t limit n count (p.deepen d) y)
    (same : x p = y (p.deepen d)) : Exhausts t limit n count p x := by
  obtain ⟨k, calls, q, failed, rest⟩ := h
  exact ⟨k, calls, q, same.trans failed, rest⟩

/-- A visit begins with a call and goes on below its answer. -/
theorem visitWith_exhausts {below : SharedNode → Run (Logged σ) SharedNode} {m c : SharedNode}
    (answer : (t n p.state.1).answer = .ok (some m)) (first : m.children.head? = some c)
    (h : Exhausts t limit c count (p.heed n (t.recorded n p.state)) (below m)) :
    Exhausts t limit n (count + 1) p (visitWith t.recorded below n) := by
  have recorded : (t.recorded n p.state).answer = .ok (some m) := answer
  obtain ⟨k, calls, q, failed, record, length, pursuit, deepest, visited, removed, rebuilt⟩ := h
  refine ⟨k, t.call n p.state.1 :: calls, q, ?_, ?_, by rw [List.length_cons, length], .cons answer first pursuit,
    deepest, ?_, ?_, ?_⟩
  · rw [visitWith_some recorded]
    exact bind_of_error failed
  · rw [record, Transform.recorded_state, List.reverse_cons, List.append_assoc, List.singleton_append]
  · rw [visited]
    simp only [Progress.heed, Stats.heed, recorded]
    omega
  · rw [removed]
    simp only [Progress.heed, Stats.heed, recorded]
  · rw [rebuilt]
    exact p.stats.heed_rebuilt n _

variable (runaway : t.Runaway)

include runaway

/-- A descent with a budget of levels makes as many calls, from the first child of its node on, and goes too deep. -/
theorem descend_runaway {budget : Nat} (h : budget ≤ limit) {c : SharedNode} (inner : n.kind.isTerminal = false)
    (first : n.children.head? = some c) (opened : p.stats.deepest = limit - budget) :
    Exhausts t limit c budget p (descend t.recorded limit budget n) := by
  induction budget generalizing n c p with
  | zero => exact ⟨n.kind, [], p, rfl, rfl, rfl, .nil c _, opened, rfl, rfl, rfl⟩
  | succ budget ih =>
    have level : (p.deepen (limit - budget)).stats.deepest = limit - budget := by
      show max p.stats.deepest (limit - budget) = limit - budget
      omega
    -- the first child is visited on the new level, and its answer has a first child in its turn
    obtain ⟨m, answer, inner', children⟩ := runaway c p.state.1
    obtain ⟨d, next⟩ : ∃ d, m.children.head? = some d := Option.isSome_iff_exists.mp (by simpa using children)
    have recorded : (t.recorded c (p.deepen (limit - budget)).state).answer = .ok (some m) := answer
    have below := ih (p := (p.deepen (limit - budget)).heed c (t.recorded c (p.deepen (limit - budget)).state))
      (Nat.le_of_succ_le h) inner' next (by simpa only [Progress.heed, Stats.heed, recorded] using level)
    have visits : Exhausts t limit c (budget + 1) (p.deepen (limit - budget)) (visit t.recorded limit budget c) :=
      visitWith_exhausts answer next below
    exact ((visits.visitFields n.kind first).bind (rebuild n)).of_deepen (descend_inner _ limit budget p inner)

private theorem visit_runaway (n : SharedNode) (opened : p.stats.deepest = 0) :
    Exhausts t limit n (limit + 1) p (visit t.recorded limit limit n) := by
  obtain ⟨m, answer, inner, children⟩ := runaway n p.state.1
  obtain ⟨c, first⟩ : ∃ c, m.children.head? = some c := Option.isSome_iff_exists.mp (by simpa using children)
  have recorded : (t.recorded n p.state).answer = .ok (some m) := answer
  refine visitWith_exhausts answer first (descend_runaway runaway (Nat.le_refl _) inner first ?_)
  simp only [Progress.heed, Stats.heed, recorded, opened, Nat.sub_self]

end Exhausts

/-! ### Runs of a runner -/

/-- What there is to report of a run that goes too deep in pursuit of first children. -/
structure Report.RanAway (t : Transform σ) (limit : Nat) (n : SharedNode) (s : σ) (count : Nat)
    (report : Report (Logged σ) α) : Prop where
  outcome : ∃ k, report.outcome = .error (.failed (.tooDeep limit k))
  calls : report.state.2.length = count
  pursuit : t.Pursuit n s report.state.2.reverse
  visited : report.stats.visited = count
  deepest : report.stats.deepest = limit
  removed : report.stats.removed = 0
  rebuilt : report.stats.rebuilt = 0

private theorem Runner.ran_away_of_exhausts {r : Runner} {region : Nat} {t : Transform σ} {op : Op} {s : σ}
    {limit count : Nat} {n : SharedNode} (h : Exhausts t limit n count (.start region op.entry (s, []))
      (op.run t.recorded r.options.limit r.options.limit)) :
    (r.perform region t.recorded op (s, [])).RanAway t limit n s count := by
  obtain ⟨k, calls, q, failed, record, length, pursuit, deepest, visited, removed, rebuilt⟩ := h
  rw [Runner.perform_eq, failed]
  have record : q.state.2 = calls.reverse := record.trans (List.append_nil _)
  exact
    { outcome := ⟨k, rfl⟩
      calls := by
        show q.state.2.length = count
        rw [record, List.length_reverse, length]
      pursuit := by
        show t.Pursuit n s q.state.2.reverse
        rw [record, List.reverse_reverse]
        exact pursuit
      visited := visited.trans (Nat.zero_add _)
      deepest := deepest
      removed := removed
      rebuilt := rebuilt }

/-- A run that goes too deep with the calls on record gives back its input in the lenient form. -/
theorem Report.RanAway.lenient {r : Runner} {region : Nat} {t : Transform σ} {op : Op} {s : σ} {limit count : Nat}
    {n : SharedNode} (h : (r.perform region t.recorded op (s, [])).RanAway t limit n s count) :
    (r.performLenient region t op s).outcome = .ok op.input := by
  obtain ⟨k, deep⟩ := h.outcome
  have strict : (r.perform region t op s).outcome = .error (.failed (.tooDeep limit k)) := by
    rw [← Runner.perform_recorded r region op s []]
    exact deep
  rw [Runner.performLenient_eq, Report.recover_eq_ok]
  exact .inr ⟨⟨limit, k, strict⟩, rfl⟩

/-- A runaway transform is stopped after as many calls as the limit allows. The visit of any node goes too deep after
one call more than there are levels, and the descent below a node with a child after one call for each level. Each call
is about the first child of the answer before. All levels are opened, nothing is removed or made again, and in the
lenient form the input comes back. -/
theorem Runner.perform_runaway (r : Runner) (region : Nat) (t : Transform σ) (runaway : t.Runaway) (n : SharedNode)
    (s : σ) :
    let limit := min r.options.maxDepth.toNat 10000
    ((r.perform region t.recorded (.visit (some n)) (s, [])).RanAway t limit n s (limit + 1) ∧
      (r.visit region t (some n) s).outcome = .ok (some n)) ∧
    ∀ c, n.kind.isTerminal = false → n.children.head? = some c →
      (r.perform region t.recorded (.descend n) (s, [])).RanAway t limit c s limit ∧
        (r.descend region t n s).outcome = .ok n := by
  intro limit
  have visits : (r.perform region t.recorded (.visit (some n)) (s, [])).RanAway t limit n s (limit + 1) :=
    Runner.ran_away_of_exhausts (visit_runaway runaway n rfl)
  refine ⟨⟨visits, visits.lenient⟩, fun c inner first => ?_⟩
  have descends : (r.perform region t.recorded (.descend n) (s, [])).RanAway t limit c s limit :=
    Runner.ran_away_of_exhausts (descend_runaway runaway (Nat.le_refl _) inner first (Nat.sub_self _).symm)
  exact ⟨descends, descends.lenient⟩

/-- A transform that makes a statement of every node. -/
def Transform.wrapping : Transform Nat := fun n made =>
  ⟨.ok (some (.mk ⟨2, made⟩ {} {} .expressionStatement .nil (.cons (.one n) .nil))), made + 1, []⟩

/-- When every node is wrapped in a statement, a visit of a leaf under a limit of three levels ends after four calls,
and a descent below a twig after three. -/
theorem Runner.perform_runaway_wrapping :
    let t := Transform.wrapping
    let runner : Runner := { options := { maxDepth := 3 } }
    let leaf := Sample.leaf ⟨0, 0⟩
    (runner.perform 1 t.recorded (.visit (some leaf)) (0, [])).RanAway t 3 leaf 0 4 ∧
      (runner.perform 1 t.recorded (.descend Sample.twig) (0, [])).RanAway t 3 leaf 0 3 ∧
      (runner.descend 1 t Sample.twig 0).outcome = .ok Sample.twig := by
  intro t runner leaf
  have runaway : t.Runaway := fun n _ => ⟨_, rfl, rfl, List.cons_ne_nil n []⟩
  obtain ⟨⟨visits, -⟩, -⟩ := Runner.perform_runaway runner 1 t runaway leaf 0
  obtain ⟨-, descends⟩ := Runner.perform_runaway runner 1 t runaway Sample.twig 0
  exact ⟨visits, descends leaf rfl rfl⟩

end SharedTree.Pass
