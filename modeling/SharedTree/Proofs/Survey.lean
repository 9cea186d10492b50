import SharedTree.Proofs.History
import SharedTree.Proofs.Keeping

/-!
# What a pass surveys within its limit

A pass with a transform that keeps every node goes through the positions that it reaches, one by one, parents before
children. It gives the tree back, unless it comes to a position beyond the limit: there it stops.

* A `Position` is a node of a tree with the nodes above it, and its `level` counts them all. `Node.positions` lists the
  reached positions of a tree, and `Node.parent_before` says that each one comes after that of its parent.
* `Surveys` says what a computation comes to that goes through some positions, and `visit_surveys` is the induction over
  the levels.
* `Runner.descend_surveyed` is the statement for a run of a runner.
-/

namespace SharedTree

variable {η : Type}

/-! ### Positions -/

/-- A position of a tree: the node that is there and the nodes above it, the nearest first. -/
structure Position (η : Type) where
  node : Node η
  above : List (Node η)

/-- The number of nodes on the path from the root to a position, both ends counted. -/
def Position.level (x : Position η) : Nat := x.above.length + 1

/-- The greatest level of some positions. -/
def Position.greatest (xs : List (Position η)) : Nat := (xs.map level).foldr max 0

namespace Position

private theorem greatest_cons (x : Position η) (xs : List (Position η)) :
    greatest (x :: xs) = max x.level (greatest xs) := rfl

private theorem greatest_append (xs ys : List (Position η)) :
    greatest (xs ++ ys) = max (greatest xs) (greatest ys) := by
  induction xs with
  | nil => exact (Nat.zero_max _).symm
  | cons x xs ih => rw [List.cons_append, greatest_cons, greatest_cons, ih, Nat.max_assoc]

private theorem greatest_le {xs : List (Position η)} {d : Nat} (h : ∀ x ∈ xs, x.level ≤ d) : greatest xs ≤ d := by
  induction xs with
  | nil => exact Nat.zero_le d
  | cons x xs ih =>
    have first := h x List.mem_cons_self
    have others := ih fun y hy => h y (List.mem_cons_of_mem x hy)
    rw [greatest_cons]
    omega

private theorem level_le_greatest {xs : List (Position η)} {x : Position η} (h : x ∈ xs) : x.level ≤ greatest xs := by
  induction xs with
  | nil => exact absurd h List.not_mem_nil
  | cons y xs ih =>
    rw [greatest_cons]
    rcases List.mem_cons.mp h with rfl | h
    · omega
    · have := ih h
      omega

end Position

namespace Node

/-- The reached positions of a tree that is below some nodes, parents before children. -/
def positionsBelow (above : List (Node η)) (n : Node η) : List (Position η) :=
  ⟨n, above⟩ :: n.entered.attach.flatMap fun ⟨c, _⟩ => c.positionsBelow (n :: above)
termination_by sizeOf n
decreasing_by exact sizeOf_lt_of_mem_children (mem_children_of_mem_entered ‹_›)

/-- The reached positions of a tree, parents before children. -/
def positions (n : Node η) : List (Position η) := n.positionsBelow []

private theorem positionsBelow_eq (above : List (Node η)) (n : Node η) :
    n.positionsBelow above = ⟨n, above⟩ :: n.entered.flatMap (positionsBelow (n :: above)) := by
  rw [positionsBelow, List.flatMap_subtype (g := positionsBelow (n :: above)) fun _ _ => rfl, List.unattach_attach]

/-- Where a list put together from two lists is split at an element, the element is in the first one or in the second
one. -/
private theorem split_of_append {α : Type} {xs ys before behind : List α} {y : α}
    (h : xs ++ ys = before ++ y :: behind) :
    (∃ rest, xs = before ++ y :: rest) ∨ ∃ rest, before = xs ++ rest ∧ ys = rest ++ y :: behind := by
  rcases List.append_eq_append_iff.mp h with ⟨rest, rfl, rfl⟩ | ⟨rest, rfl, tail⟩
  · exact .inr ⟨rest, rfl, rfl⟩
  · cases rest with
    | nil => exact .inr ⟨[], by rw [List.append_nil, List.append_nil], tail.symm⟩
    | cons z rest =>
      obtain ⟨rfl, -⟩ := List.cons.inj tail
      exact .inl ⟨rest, rfl⟩

private theorem split_of_flatMap {α β : Type} {f : α → List β} {xs : List α} {before behind : List β} {y : β}
    (h : xs.flatMap f = before ++ y :: behind) :
    ∃ x ∈ xs, ∃ before' behind', f x = before' ++ y :: behind' ∧ before' ⊆ before := by
  induction xs generalizing before with
  | nil => exact absurd h.symm (List.append_ne_nil_of_right_ne_nil _ (List.cons_ne_nil _ _))
  | cons x xs ih =>
    rw [List.flatMap_cons] at h
    rcases split_of_append h with ⟨rest, hx⟩ | ⟨rest, rfl, hxs⟩
    · exact ⟨x, List.mem_cons_self, before, rest, hx, List.Subset.refl before⟩
    · obtain ⟨x', hx', before', behind', hf, sub⟩ := ih hxs
      exact ⟨x', List.mem_cons_of_mem x hx', before', behind', hf, List.subset_append_of_subset_right _ sub⟩

/-- Every position but the first one comes after that of its parent. -/
theorem parent_before {above : List (Node η)} {n : Node η} {before behind : List (Position η)} {x : Position η}
    (h : n.positionsBelow above = before ++ x :: behind) :
    before = [] ∨ ∃ parent ∈ before, x.above = parent.node :: parent.above := by
  induction n using induct generalizing above before behind with
  | step n ih =>
    rw [positionsBelow_eq] at h
    cases before with
    | nil => exact .inl rfl
    | cons first before =>
      obtain ⟨rfl, tail⟩ := List.cons.inj h
      right
      obtain ⟨c, hc, before', behind', hp, sub⟩ := split_of_flatMap tail
      rcases ih c (mem_children_of_mem_entered hc) hp with rfl | ⟨parent, hparent, child⟩
      · -- the position is that of a child of the first node
        rw [positionsBelow_eq] at hp
        obtain ⟨rfl, -⟩ := List.cons.inj hp
        exact ⟨_, List.mem_cons_self, rfl⟩
      · exact ⟨parent, List.mem_cons_of_mem _ (sub hparent), child⟩

/-- If some reached position is beyond a limit, the first one in order is one level beyond it, and the levels before
go up to the limit. -/
theorem first_beyond {limit : Nat} {n : Node η} (h : ¬ ∀ x ∈ n.positions, x.level ≤ limit) :
    ∃ before x behind, n.positions = before ++ x :: behind ∧ (∀ y ∈ before, y.level ≤ limit) ∧ x.level = limit + 1 ∧
      Position.greatest before = limit := by
  simp only [not_forall, Nat.not_le] at h
  obtain ⟨y, hy, deep⟩ := h
  have found : (n.positions.find? fun x => limit < x.level).isSome := by
    rw [List.find?_isSome]
    exact ⟨y, hy, decide_eq_true deep⟩
  obtain ⟨x, hx⟩ := Option.isSome_iff_exists.mp found
  obtain ⟨beyond, before, behind, split, first⟩ := List.find?_eq_some_iff_append.mp hx
  have fits : ∀ z ∈ before, z.level ≤ limit := fun z hz => by
    have := first z hz
    simpa using this
  have beyond : limit < x.level := of_decide_eq_true beyond
  have lower := Position.greatest_le fits
  refine ⟨before, x, behind, split, fits, ?_⟩
  rcases parent_before split with rfl | ⟨parent, hparent, above⟩
  · -- the root itself is beyond the limit
    rw [positions, positionsBelow_eq] at split
    obtain ⟨rfl, -⟩ := List.cons.inj split
    change limit < 0 + 1 at beyond
    have none : limit = 0 := by omega
    rw [none]
    exact ⟨rfl, rfl⟩
  · have child : x.level = parent.level + 1 := by rw [Position.level, above]; rfl
    have := fits parent hparent
    have := Position.level_le_greatest hparent
    exact ⟨by omega, by omega⟩

end Node

namespace Pass

variable {σ α β : Type}

/-! ### Going through positions -/

/-- The counters after the nodes at some positions have been visited. -/
def Stats.past (s : Stats) (xs : List (Position Handle)) : Stats :=
  { s with visited := s.visited + xs.length, deepest := max s.deepest (Position.greatest xs) }

private theorem Stats.past_nil (s : Stats) : s.past [] = s := by
  show { s with visited := s.visited, deepest := max s.deepest 0 } = s
  rw [Nat.max_zero]

private theorem Stats.past_append (s : Stats) (xs ys : List (Position Handle)) :
    s.past (xs ++ ys) = (s.past xs).past ys := by
  simp only [past, List.length_append, Position.greatest_append, Nat.add_assoc, Nat.max_assoc]

/-- A computation goes through some positions and comes to the result, if they are all within the limit. If one is not,
it fails at the first such position: the node there is visited, but no level is opened for it. -/
structure Surveys (limit : Nat) (xs : List (Position Handle)) (x : Run σ α) (a : α) : Prop where
  within : (∀ y ∈ xs, y.level ≤ limit) → ∀ p, ∃ q, x p = .ok a q ∧ q.stats = p.stats.past xs
  beyond : ∀ before y behind, xs = before ++ y :: behind → (∀ z ∈ before, z.level ≤ limit) → limit < y.level →
    ∀ p, ∃ q, x p = .error (.failed (.tooDeep limit y.node.kind)) q ∧
      q.stats = { p.stats.past before with visited := p.stats.visited + (before.length + 1) }

section Surveys

variable {limit : Nat} {xs ys : List (Position Handle)}

private theorem surveys_sequential (limit : Nat) :
    Sequential fun {α : Type} xs (x : Run σ α) a => Surveys limit xs x a where
  pure a := ⟨fun _ p => ⟨p, rfl, p.stats.past_nil.symm⟩, fun before y behind h => by simp at h⟩
  bind {α β xs ys x a f b} hx hf := by
    constructor
    · intro fits p
      obtain ⟨q, hq, stats⟩ := hx.within (fun y hy => fits y (List.mem_append_left ys hy)) p
      obtain ⟨r, hr, stats'⟩ := hf.within (fun y hy => fits y (List.mem_append_right xs hy)) q
      exact ⟨r, by rw [bind_of_ok hq, hr], by rw [stats', stats, Stats.past_append]⟩
    · intro before y behind h fits deep p
      rcases Node.split_of_append h with ⟨rest, hxs⟩ | ⟨rest, rfl, hys⟩
      · obtain ⟨q, hq, stats⟩ := hx.beyond before y rest hxs fits deep p
        exact ⟨q, bind_of_error hq, stats⟩
      · obtain ⟨q, hq, stats⟩ := hx.within (fun z hz => fits z (List.mem_append_left rest hz)) p
        obtain ⟨r, hr, stats'⟩ := hf.beyond rest y behind hys (fun z hz => fits z (List.mem_append_right xs hz)) deep q
        refine ⟨r, by rw [bind_of_ok hq, hr], ?_⟩
        rw [stats', stats, ← Stats.past_append, List.length_append, Nat.add_assoc xs.length]
        exact congrArg (fun k => { p.stats.past (xs ++ rest) with visited := k }) (Nat.add_assoc ..)

/-- A position within the limit comes first. -/
theorem Surveys.cons {z : Position Handle} {x y : Run σ α} {a : α} (hz : z.level ≤ limit)
    (h : ∀ p, ∃ p', x p = y p' ∧ p'.stats = p.stats.past [z]) (hy : Surveys limit ys y a) :
    Surveys limit (z :: ys) x a := by
  constructor
  · intro fits p
    obtain ⟨p', hx, stats⟩ := h p
    obtain ⟨q, hq, stats'⟩ := hy.within (fun y hy => fits y (List.mem_cons_of_mem z hy)) p'
    exact ⟨q, hx.trans hq, by rw [stats', stats, ← Stats.past_append]; rfl⟩
  · intro before y behind split fits deep p
    cases before with
    | nil =>
      obtain ⟨rfl, -⟩ := List.cons.inj split
      omega
    | cons first before =>
      obtain ⟨rfl, tail⟩ := List.cons.inj split
      obtain ⟨p', hx, stats⟩ := h p
      obtain ⟨q, hq, stats'⟩ := hy.beyond before y behind tail (fun z hz => fits z (List.mem_cons_of_mem _ hz)) deep p'
      have counted : p.stats.visited + 1 + (before.length + 1) = p.stats.visited + (before.length + 1 + 1) := by omega
      refine ⟨q, hx.trans hq, ?_⟩
      rw [stats', stats, ← Stats.past_append]
      exact congrArg (fun k => { p.stats.past (z :: before) with visited := k }) counted

variable {t : Transform σ} {n : SharedNode}

/-- What is counted when a node is kept. -/
private theorem heed_kept (keeps : t.Keeps n) (p : Progress σ) :
    (p.heed n (t n p.state)).stats = { p.stats with visited := p.stats.visited + 1 } := by
  simp only [Progress.heed, keeps p.state, Stats.heed, Node.same_self, if_true]

/-- The descent below a node for which there is a level left. -/
private theorem descend_surveys {budget : Nat} {above : List SharedNode} (hl : above.length + (budget + 1) = limit)
    (hv : ∀ c ∈ n.entered,
      Surveys limit (c.positionsBelow (n :: above)) (visit t limit budget c) (some c)) :
    ∃ below : Run σ SharedNode, (∀ p, descend t limit (budget + 1) n p = below (p.deepen (above.length + 1))) ∧
      Surveys limit (n.entered.flatMap (Node.positionsBelow (n :: above))) below n := by
  have level : limit - budget = above.length + 1 := by omega
  cases hn : n.kind.isTerminal with
  | true =>
    refine ⟨pure n, fun p => ?_, ?_⟩
    · rw [descend_terminal t limit budget p hn, level]
      rfl
    · rw [Node.entered_terminal hn]
      exact (surveys_sequential limit).pure n
  | false =>
    rw [Node.entered_inner hn] at hv ⊢
    have fields := (surveys_sequential limit).visitFields n.kind n.fields hv
    have unchanged : Surveys limit [] (rebuild n n.fields : Run σ SharedNode) n := by
      rw [show (rebuild n n.fields : Run σ SharedNode) = pure n from funext fun p => rebuild_same n.fields.same_self]
      exact (surveys_sequential limit).pure n
    refine ⟨visitFields (visit t limit budget) n.kind n.fields >>= rebuild n, fun p => ?_, ?_⟩
    · rw [descend_inner t limit budget p hn, level]
      rfl
    · have whole := (surveys_sequential limit).bind fields unchanged
      rwa [List.append_nil] at whole

/-- A visit goes through the reached positions of its tree, as long as no more levels are open than the limit allows. -/
theorem visit_surveys {budget : Nat} {above : List SharedNode} (hl : above.length + budget = limit)
    (keeps : ∀ c ∈ n.reached, t.Keeps c) :
    Surveys limit (n.positionsBelow above) (visit t limit budget n) (some n) := by
  induction budget generalizing above n with
  | zero =>
    rw [Node.positionsBelow_eq]
    have here : (⟨n, above⟩ : Position Handle).level = limit + 1 := by
      show above.length + 1 = limit + 1
      omega
    constructor
    · intro fits
      have := fits _ List.mem_cons_self
      omega
    · intro before y behind split fits deep p
      cases before with
      | nil =>
        obtain ⟨rfl, -⟩ := List.cons.inj split
        have kept : t.Keeps n := keeps n (by rw [Node.reached_eq]; exact List.mem_cons_self)
        refine ⟨p.heed n (t n p.state), ?_, ?_⟩
        · rw [visit, visitWith_some (kept p.state)]
          rfl
        · rw [heed_kept kept, Stats.past_nil]
          rfl
      | cons first before =>
        obtain ⟨rfl, -⟩ := List.cons.inj split
        have := fits _ List.mem_cons_self
        omega
  | succ budget ih =>
    rw [Node.reached_eq, List.forall_mem_cons] at keeps
    obtain ⟨kept, keeps⟩ := keeps
    obtain ⟨below, eq, surveys⟩ := descend_surveys hl fun c hc => by
      refine ih ?_ fun k hk => keeps k (List.mem_flatMap_of_mem hc hk)
      rw [List.length_cons]
      omega
    rw [Node.positionsBelow_eq]
    refine Surveys.cons (y := below >>= fun m => pure (some m)) ?_ (fun p => ?_) ?_
    · show above.length + 1 ≤ limit
      omega
    · refine ⟨(p.heed n (t n p.state)).deepen (above.length + 1), ?_, ?_⟩
      · rw [visit, visitWith_some (kept p.state)]
        exact bind_congr_left (eq _)
      · rw [Progress.deepen, heed_kept kept]
        rfl
    · exact (surveys_sequential limit).bind_pure surveys rfl

end Surveys

/-! ### Runs of a runner -/

section Root

variable {t : Transform σ} {limit : Nat} {n : SharedNode} (keeps : ∀ c ∈ n.entered.flatMap Node.reached, t.Keeps c)
  {p : Progress σ} (hp : p.stats = {})

include keeps

/-- The descent at the root of a run, when the limit allows a level. -/
private theorem descend_root {budget : Nat} (h : limit = budget + 1) :
    ∃ below : Run σ SharedNode, descend t limit limit n p = below (p.deepen 1) ∧
      Surveys limit (n.entered.flatMap (Node.positionsBelow [n])) below n := by
  subst h
  have level : ([] : List SharedNode).length + (budget + 1) = budget + 1 := Nat.zero_add (budget + 1)
  obtain ⟨below, eq, surveys⟩ := descend_surveys (t := t) level fun c hc =>
    visit_surveys (by rw [List.length_singleton, Nat.add_comm]) fun k hk => keeps k (List.mem_flatMap_of_mem hc hk)
  exact ⟨below, eq p, surveys⟩

include hp

private theorem descend_within (fits : ∀ x ∈ n.positions, x.level ≤ limit) :
    ∃ q, descend t limit limit n p = .ok n q ∧
      q.stats = { visited := n.positions.tail.length, deepest := Position.greatest n.positions } := by
  rw [Node.positions, Node.positionsBelow_eq] at fits ⊢
  obtain ⟨root, others⟩ := List.forall_mem_cons.mp fits
  change 1 ≤ limit at root
  have allowed : limit = limit - 1 + 1 := by omega
  obtain ⟨below, eq, surveys⟩ := descend_root keeps (p := p) allowed
  obtain ⟨q, hq, stats⟩ := surveys.within others (p.deepen 1)
  have opened : (p.deepen 1).stats = { deepest := 1 } := by rw [Progress.deepen, hp]; rfl
  refine ⟨q, eq.trans hq, ?_⟩
  rw [stats, opened, Stats.past, Position.greatest_cons, List.tail_cons, Nat.zero_add]
  rfl

private theorem descend_beyond {before behind : List (Position Handle)} {x : Position Handle}
    (split : n.positions = before ++ x :: behind) (fits : ∀ y ∈ before, y.level ≤ limit) (deep : x.level = limit + 1)
    (highest : Position.greatest before = limit) :
    ∃ q, descend t limit limit n p = .error (.failed (.tooDeep limit x.node.kind)) q ∧
      q.stats = { visited := (before ++ [x]).tail.length, deepest := limit } := by
  rw [Node.positions, Node.positionsBelow_eq] at split
  cases before with
  | nil =>
    obtain ⟨rfl, -⟩ := List.cons.inj split
    change 0 = limit at highest
    subst highest
    exact ⟨p, rfl, hp⟩
  | cons root before =>
    obtain ⟨rfl, tail⟩ := List.cons.inj split
    have first := fits _ List.mem_cons_self
    change 1 ≤ limit at first
    have allowed : limit = limit - 1 + 1 := by omega
    obtain ⟨below, eq, surveys⟩ := descend_root keeps (p := p) allowed
    obtain ⟨q, hq, stats⟩ := surveys.beyond before x behind tail (fun y hy => fits y (List.mem_cons_of_mem _ hy))
      (by omega) (p.deepen 1)
    have opened : (p.deepen 1).stats = { deepest := 1 } := by rw [Progress.deepen, hp]; rfl
    have counted : (before ++ [x]).length = before.length + 1 := List.length_append
    change max 1 (Position.greatest before) = limit at highest
    refine ⟨q, eq.trans hq, ?_⟩
    rw [stats, opened, Stats.past, List.cons_append, List.tail_cons, counted, ← highest, Nat.zero_add, Nat.zero_add]

end Root

/-- The outcome of a pass that keeps every node that it comes to, under any limit. If all reached positions are within
the limit, the very tree comes back: every position but the root was visited, and the deepest level is the greatest
level of a position. Otherwise the pass goes too deep at the first position that is one level beyond the limit. The
positions up to there have been visited, but for the root, and as many levels as the limit allows have been opened. In
neither case is a change counted, and the lenient form of the pass gives back the very tree. -/
theorem Runner.descend_surveyed (r : Runner) (region : Nat) (t : Transform σ) (n : SharedNode) (s : σ)
    (keeps : ∀ c ∈ n.reached.tail, t.Keeps c) :
    let limit := r.options.limit
    let report := r.descend? region t n s
    ((∀ x ∈ n.positions, x.level ≤ limit) →
      report.outcome = .ok n ∧
        report.stats = { visited := n.positions.tail.length, deepest := Position.greatest n.positions }) ∧
    ((¬ ∀ x ∈ n.positions, x.level ≤ limit) →
      ∃ before x behind, n.positions = before ++ x :: behind ∧ (∀ y ∈ before, y.level ≤ limit) ∧
        x.level = limit + 1 ∧ report.outcome = .error (.failed (.tooDeep limit x.node.kind)) ∧
        report.stats = { visited := (before ++ [x]).tail.length, deepest := limit }) ∧
    (r.descend region t n s).outcome = .ok n := by
  intro limit report
  let start : Progress σ := .start region (Op.descend n).entry s
  have ends : report = r.conclude (Pass.descend t limit limit n start) := r.perform_eq region t (.descend n) s
  rw [Node.tail_reached] at keeps
  have within : (∀ x ∈ n.positions, x.level ≤ limit) → report.outcome = .ok n ∧
      report.stats = { visited := n.positions.tail.length, deepest := Position.greatest n.positions } := by
    intro fits
    obtain ⟨q, hq, stats⟩ := descend_within (p := start) keeps rfl fits
    rw [ends, hq]
    exact ⟨rfl, stats⟩
  have beyond : (¬ ∀ x ∈ n.positions, x.level ≤ limit) →
      ∃ before x behind, n.positions = before ++ x :: behind ∧ (∀ y ∈ before, y.level ≤ limit) ∧
        x.level = limit + 1 ∧ report.outcome = .error (.failed (.tooDeep limit x.node.kind)) ∧
        report.stats = { visited := (before ++ [x]).tail.length, deepest := limit } := by
    intro h
    obtain ⟨before, x, behind, split, fits, deep, highest⟩ := Node.first_beyond h
    obtain ⟨q, hq, stats⟩ := descend_beyond (p := start) keeps rfl split fits deep highest
    rw [ends, hq]
    exact ⟨before, x, behind, split, fits, deep, rfl, stats⟩
  refine ⟨within, beyond, ?_⟩
  show (report.recover n).outcome = .ok n
  rw [Report.recover_eq_ok]
  by_cases h : ∀ x ∈ n.positions, x.level ≤ limit
  · exact .inl (within h).1
  · obtain ⟨before, x, behind, -, -, -, outcome, -⟩ := beyond h
    exact .inr ⟨⟨_, _, outcome⟩, rfl⟩

/-- In a row of a leaf and a twig, the leaf of the twig is on the third level. When two levels are allowed, the pass
goes too deep there, after the leaf that is not as deep, and it does not change the tree. -/
theorem Runner.descend_surveyed_twig :
    let n : SharedNode := .mk ⟨0, 3⟩ {} {} .arrayLiteralExpression .nil
      (.cons (.row ⟨⟨0, 0⟩, {}, [Sample.leaf ⟨0, 2⟩, Sample.twig]⟩) .nil)
    let runner : Runner := { options := { maxDepth := 2 } }
    let report := runner.descend? 1 .identity n ()
    (∃ before x behind, n.positions = before ++ x :: behind ∧ x.level = 3 ∧
      report.outcome = .error (.failed (.tooDeep 2 x.node.kind)) ∧
      report.stats = { visited := (before ++ [x]).tail.length, deepest := 2 }) ∧
    (runner.descend 1 .identity n ()).outcome = .ok n := by
  intro n runner report
  obtain ⟨within, beyond, lenient⟩ := runner.descend_surveyed 1 .identity n () fun _ _ _ => rfl
  have deep : report.outcome = .error (.failed (.tooDeep 2 .thisKeyword)) := by rfl
  have exceeds : ¬ ∀ x ∈ n.positions, x.level ≤ runner.options.limit := by
    intro fits
    have returned : report.outcome = .ok n := (within fits).1
    rw [deep] at returned
    cases returned
  obtain ⟨before, x, behind, split, -, level, outcome, stats⟩ := beyond exceeds
  exact ⟨⟨before, x, behind, split, level, outcome, stats⟩, lenient⟩

end Pass

end SharedTree
