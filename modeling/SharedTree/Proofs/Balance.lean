import SharedTree.Proofs.Error
import SharedTree.Proofs.Keeping
import SharedTree.Proofs.Refinement

/-!
# Counters and what comes back

The counters of a run that succeeds describe the tree that comes back: how many positions a pass reaches in it, and how
deep they are.

* `Tallies` is the relation in which the counters describe the reached positions of what has come out, and
  `descend_tallies` the induction over the levels.
* `Runner.descend_tallied` is the statement for a run of a runner.
-/

namespace SharedTree.Pass

open Transform (Call)

variable {σ : Type}

/-! ### Counters and reached positions -/

/-- Between two points of a run, while some levels are open, the counters describe the trees that have come out: the
nodes that were visited and not removed are those at the reached positions, and the deepest level is the one of the
deepest position. -/
structure Tallies (opened : Nat) (p q : Progress (Logged σ)) (ms : List SharedNode) : Prop where
  visited : q.stats.visited + p.stats.removed = p.stats.visited + q.stats.removed + (ms.flatMap Node.reached).length
  deepest : opened ≤ p.stats.deepest → q.stats.deepest = max p.stats.deepest (opened + Node.height ms)

section Tallies

variable {opened : Nat}

/-- The counters of two passages in a row describe what has come out of both. -/
private theorem tallies_additive : Additive fun (p q : Progress (Logged σ)) _ ms => Tallies opened p q ms where
  nil p := ⟨rfl, fun h => (Nat.max_eq_left h).symm⟩
  append {p q r _ ms _ ms'} first second := by
    refine ⟨?_, fun h => ?_⟩
    · have := first.visited
      have := second.visited
      rw [List.flatMap_append, List.length_append]
      omega
    · have level := first.deepest h
      have level' := second.deepest (by omega)
      rw [Node.height_append]
      omega
  rowMade h := ⟨h.visited, h.deepest⟩

variable {t : Transform σ} {p : Progress (Logged σ)} {n : SharedNode}

/-- Of a node that is removed nothing comes out. -/
private theorem Tallies.of_removed (h : (t n p.state.1).answer = .ok none) :
    Tallies opened p (p.heed n (t.recorded n p.state)) [] := by
  have removed : (t.recorded n p.state).answer = .ok none := h
  have stats : (p.heed n (t.recorded n p.state)).stats =
      { p.stats with visited := p.stats.visited + 1, removed := p.stats.removed + 1 } := by
    rw [Progress.heed, removed]
    rfl
  refine ⟨?_, fun h => ?_⟩
  · rw [stats, List.flatMap_nil, List.length_nil]
    show p.stats.visited + 1 + p.stats.removed = p.stats.visited + (p.stats.removed + 1) + 0
    omega
  · rw [stats]
    exact (Nat.max_eq_left h).symm

/-- The node that comes out of a visit is one more than those that come out of the level below the answer. -/
private theorem Tallies.of_answered {m m' : SharedNode} {q : Progress (Logged σ)}
    (h : (t n p.state.1).answer = .ok (some m))
    (below : Tallies (opened + 1) ((p.heed n (t.recorded n p.state)).deepen (opened + 1)) q m'.entered) :
    Tallies opened p q [m'] := by
  have answered : (t.recorded n p.state).answer = .ok (some m) := h
  have visited := below.visited
  have deepest := below.deepest (Nat.le_max_right _ _)
  rw [Progress.heed, answered] at visited deepest
  refine ⟨?_, fun _ => ?_⟩
  · rw [List.flatMap_singleton, Node.reached_eq, List.length_cons]
    change q.stats.visited + p.stats.removed = p.stats.visited + 1 + q.stats.removed + _ at visited
    omega
  · rw [Node.height_cons, Node.levels_eq, deepest]
    show max (max p.stats.deepest (opened + 1)) _ = max p.stats.deepest (opened + max _ 0)
    omega

variable {region : Nat}

private theorem visitWith_tallies {limit : Nat} {below : SharedNode → Run (Logged σ) SharedNode}
    (hb : ∀ n, Moves t.recorded limit (below n))
    (tallies : ∀ n : SharedNode, n.Avoids region → ∀ p m q, p.supply.region = region → below n p = .ok m q →
      q.Lawful region → Tallies (opened + 1) (p.deepen (opened + 1)) q m.entered)
    {a : Option SharedNode} {q : Progress (Logged σ)} (hp : p.supply.region = region)
    (h : visitWith t.recorded below n p = .ok a q) (hl : q.Lawful region) : Tallies opened p q a.toList := by
  rcases visitWith_of_ok hb h hl with ⟨removed, rfl, rfl⟩ | ⟨m, m', answered, ⟨avoid, -⟩, rfl, h'⟩
  · exact .of_removed removed
  · exact .of_answered answered (tallies m avoid (p.heed n (t.recorded n p.state)) m' q hp h' hl)

/-- The descent below a node when some levels are open: from the opening of its own level on, the counters describe what
a pass reaches from the node that comes back. -/
private theorem descend_tallies (opened budget : Nat) (ha : n.Avoids region) (p : Progress (Logged σ))
    (hp : p.supply.region = region) {m : SharedNode} {q : Progress (Logged σ)}
    (h : descend t.recorded (opened + budget) budget n p = .ok m q) (hl : q.Lawful region) :
    Tallies (opened + 1) (p.deepen (opened + 1)) q m.entered := by
  induction budget generalizing opened n p m q with
  | zero => cases h
  | succ budget ih =>
    have level : opened + (budget + 1) - budget = opened + 1 := by omega
    cases hn : n.kind.isTerminal with
    | true =>
      rw [descend_terminal t.recorded _ budget p hn, level] at h
      cases h
      rw [Node.entered_terminal hn]
      exact tallies_additive.nil _
    | false =>
      obtain ⟨g, fs, q₁, rfl, -, stats, passage⟩ := descend_of_ok ha hn hp h hl
      rw [level] at passage
      have below : ∀ k : SharedNode, k.Avoids region → ∀ p m q, p.supply.region = region →
          descend t.recorded (opened + (budget + 1)) budget k p = .ok m q → q.Lawful region →
          Tallies (opened + 1 + 1) (p.deepen (opened + 1 + 1)) q m.entered := by
        intro k hk p m q hp h hl
        rw [show opened + (budget + 1) = opened + 1 + budget by omega] at h
        exact ih (opened + 1) hk p hp h hl
      have tallies : Tallies (opened + 1) (p.deepen (opened + 1)) q₁ fs.nodes :=
        tallies_additive.fields (fun v => visitWith_tallies (descend_moves budget) below v.start v.run v.lawful) passage
      have inner : (Node.mk g n.span n.flags n.kind n.payload fs).kind.isTerminal = false := hn
      rw [Node.entered_inner inner]
      -- making the node anew has no bearing on the counters in question
      refine ⟨?_, fun h => ?_⟩
      · rw [stats]
        exact tallies.visited
      · rw [stats]
        exact tallies.deepest h

end Tallies

/-- The counters of a run of a runner against what comes back. -/
theorem Runner.Orderly.counts {r : Runner} {region : Nat} {t : Transform σ} {n m : SharedNode} {s : σ}
    (orderly : r.Orderly region t (.descend n) s) (h : (r.descend? region t n s).outcome = .ok m) :
    let stats := (r.descend? region t n s).stats
    stats.visited = stats.removed + m.reached.tail.length ∧ stats.deepest = m.levels ∧ m.levels ≤ r.options.limit := by
  intro stats
  let limit := r.options.limit
  let start : Progress (Logged σ) := .start region (Op.descend n).entry (s, [])
  obtain ⟨q, run, lawful, counts⟩ := orderly.run_of_ok h
  change Pass.descend t.recorded limit limit n start = .ok m q at run
  change stats = q.stats at counts
  have tallies : Tallies 1 (start.deepen 1) q m.entered := by
    refine descend_tallies (t := t) 0 limit orderly.avoids start rfl ?_ lawful
    rw [Nat.zero_add]
    exact run
  have bounded : q.stats.deepest ≤ max 0 limit := by
    have moved : Reaches t.recorded limit start (after (Pass.descend t.recorded limit limit n start)) :=
      descend_moves limit n start
    rw [run] at moved
    exact moved.deepest.2
  have visited := tallies.visited
  have deepest := tallies.deepest (Nat.le_max_right _ _)
  change q.stats.visited + 0 = 0 + q.stats.removed + _ at visited
  change q.stats.deepest = max (max 0 1) (1 + Node.height m.entered) at deepest
  rw [counts, Node.tail_reached, Node.levels_eq]
  omega

/-- The counters of a descent that succeeds describe the tree that comes back. The deepest level is the number of nodes
on the longest path of reached positions, and it is within the limit. The nodes that were visited and not removed are
those at the reached positions below the root. With the root they are as many as the nodes of the tree if no reached
terminal node has children, and fewer otherwise. So a further run under the same limit that keeps what it meets gives
the tree back. -/
theorem Runner.descend_tallied (r : Runner) (region : Nat) (t : Transform σ) (n : SharedNode) (s : σ)
    (orderly : r.Orderly region t (.descend n) s) {m : SharedNode} (h : (r.descend? region t n s).outcome = .ok m) :
    let stats := (r.descend? region t n s).stats
    (stats.deepest = m.levels ∧ m.levels ≤ r.options.limit) ∧
    (stats.removed ≤ stats.visited ∧ stats.visited - stats.removed + 1 = m.reached.length) ∧
    (stats.visited - stats.removed + 1 ≤ m.count ∧
      (stats.visited - stats.removed + 1 = m.count ↔
        ∀ c ∈ m.reached, c.kind.isTerminal = true → c.children = [])) ∧
    ∀ (τ : Type) (t' : Transform τ) (r' : Runner) (region' : Nat) (s' : τ), r'.options.limit = r.options.limit →
      (∀ c ∈ m.reached.tail, t'.Keeps c) → (r'.descend? region' t' m s').outcome = .ok m := by
  intro stats
  obtain ⟨visited, levels, fits⟩ := orderly.counts h
  change stats.visited = stats.removed + _ at visited
  have reached : stats.visited - stats.removed + 1 = m.reached.length := by
    rw [Node.tail_reached] at visited
    rw [Node.reached_eq, List.length_cons]
    omega
  refine ⟨⟨levels, fits⟩, ⟨?_, reached⟩, ?_, ?_⟩
  · rw [visited]
    exact Nat.le_add_right _ _
  · rw [reached]
    exact ⟨m.length_reached_le_count, m.length_reached_eq_count⟩
  · intro τ t' r' region' s' same keeps
    exact (r'.descend_returns region' s' (same ▸ fits) keeps).1

/-- A transform that counts its calls and keeps every node but the first two that it is asked about: it removes the
first one and answers `m` about the second one. -/
def Transform.pruning (m : SharedNode) : Transform Nat := fun n calls =>
  ⟨.ok ([none, some m].getD calls (some n)), calls + 1, []⟩

/-- Of two leaves in a row, the first one is removed and the second one is replaced. Three nodes are visited, the leaf
of the new node included, and what comes back has three nodes on three levels. -/
theorem Runner.descend_tallied_sheaf :
    let t := Transform.pruning (Sample.sheaf [⟨2, 0⟩] ⟨2, 1⟩)
    ∃ m, (Sample.runner.descend? 1 t (Sample.sheaf [⟨0, 0⟩, ⟨0, 1⟩] ⟨0, 2⟩) 0).outcome = .ok m ∧
      m.levels = 3 ∧ m.reached.length = 3 := by
  intro t
  let n := Sample.sheaf [⟨0, 0⟩, ⟨0, 1⟩] ⟨0, 2⟩
  have orderly : Sample.runner.Orderly 1 t (.descend n) 0 := by
    refine ⟨show n.Avoids 1 by decide, fun c hc => ?_⟩
    replace hc : c ∈ [t.call (Sample.leaf ⟨2, 0⟩) 2, t.call (Sample.leaf ⟨0, 1⟩) 1, t.call (Sample.leaf ⟨0, 0⟩) 0] := hc
    simp only [List.mem_cons, List.not_mem_nil, or_false] at hc
    rcases hc with rfl | rfl | rfl
    · exact .kept rfl (by decide)
    · exact .replaced (m := Sample.sheaf [⟨2, 0⟩] ⟨2, 1⟩) rfl (by decide) rfl
    · exact .removed rfl
  have stats : (Sample.runner.descend? 1 t n 0).stats = ⟨3, 1, 1, 1, 3⟩ := by decide +kernel
  have main := Runner.descend_tallied Sample.runner 1 t n 0 orderly rfl
  simp only [stats] at main
  exact ⟨_, rfl, main.1.1.symm, main.2.1.2.symm⟩

end SharedTree.Pass
