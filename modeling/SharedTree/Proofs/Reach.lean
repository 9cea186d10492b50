import SharedTree.Node.Size

/-!
# The positions that a pass reaches

A pass reaches the root of a tree and the children of every node that it reaches, unless the node is terminal. These
positions form a tree of their own, in which terminal nodes are leaves.

* `Node.reached` lists the nodes at the reached positions, parents before children, and `Node.levels` is the number of
  nodes on the longest path through them. `Node.reached_eq` and `Node.levels_eq` are their equations.
* `Node.length_reached_le_count`, `Node.length_reached_eq_count`: there are at most as many reached positions as nodes
  in the tree, and exactly as many if and only if no reached terminal node has children.
-/

namespace SharedTree

variable {η : Type}

namespace Node

/-- The children of a node that a pass reaches from there. -/
def entered (n : Node η) : List (Node η) := if n.kind.isTerminal then [] else n.children

/-- Terminal nodes are not entered. -/
theorem entered_terminal {n : Node η} (h : n.kind.isTerminal = true) : n.entered = [] := if_pos h

theorem entered_inner {n : Node η} (h : n.kind.isTerminal = false) : n.entered = n.children := by
  rw [entered, h, if_neg Bool.false_ne_true]

theorem mem_children_of_mem_entered {n c : Node η} (h : c ∈ n.entered) : c ∈ n.children := by
  cases hn : n.kind.isTerminal with
  | true =>
    rw [entered_terminal hn] at h
    exact absurd h List.not_mem_nil
  | false => rwa [entered_inner hn] at h

/-- The nodes at the reached positions of a tree, parents before children. -/
def reached (n : Node η) : List (Node η) := n :: n.entered.attach.flatMap fun ⟨c, _⟩ => c.reached
termination_by sizeOf n
decreasing_by exact sizeOf_lt_of_mem_children (mem_children_of_mem_entered ‹_›)

/-- The number of nodes on the longest path of reached positions. -/
def levels (n : Node η) : Nat := 1 + (n.entered.attach.map fun ⟨c, _⟩ => c.levels).foldr max 0
termination_by sizeOf n
decreasing_by exact sizeOf_lt_of_mem_children (mem_children_of_mem_entered ‹_›)

/-- The number of nodes on the longest path of reached positions of some trees side by side. -/
def height (ns : List (Node η)) : Nat := (ns.map levels).foldr max 0

/-- A node is reached before all that is reached from its children. -/
theorem reached_eq (n : Node η) : n.reached = n :: n.entered.flatMap reached := by
  rw [reached, List.flatMap_subtype (g := reached) fun _ _ => rfl, List.unattach_attach]

/-- A node is one level above the highest of the trees that are entered from it. -/
theorem levels_eq (n : Node η) : n.levels = 1 + height n.entered := by
  rw [levels, List.map_subtype (g := levels) fun _ _ => rfl, List.unattach_attach]
  rfl

/-- The nodes below the root at the reached positions of a tree. -/
theorem tail_reached (n : Node η) : n.reached.tail = n.entered.flatMap reached := by
  rw [reached_eq, List.tail_cons]

theorem height_cons (n : Node η) (ns : List (Node η)) : height (n :: ns) = max n.levels (height ns) := rfl

theorem height_append (ms ns : List (Node η)) : height (ms ++ ns) = max (height ms) (height ns) := by
  induction ms with
  | nil => exact (Nat.zero_max _).symm
  | cons m ms ih => rw [List.cons_append, height_cons, height_cons, ih, Nat.max_assoc]

/-- Some trees side by side are as low as a bound exactly when each of them is. -/
theorem height_le_iff {ns : List (Node η)} {d : Nat} : height ns ≤ d ↔ ∀ n ∈ ns, n.levels ≤ d := by
  induction ns with
  | nil => exact ⟨fun _ _ h => absurd h List.not_mem_nil, fun _ => Nat.zero_le d⟩
  | cons n ns ih => rw [height_cons, Nat.max_le, ih, List.forall_mem_cons]

/-! ### Reached positions and nodes -/

private theorem size_pos (n : Node η) : 0 < n.size := by
  rw [size_eq]
  omega

private theorem total_sizes_eq_zero {ns : List (Node η)} : total (ns.map size) = 0 ↔ ns = [] := by
  cases ns with
  | nil => exact ⟨fun _ => rfl, fun _ => rfl⟩
  | cons n ns =>
    have := n.size_pos
    simp only [List.map_cons, total, List.cons_ne_nil, iff_false]
    omega

/-- All nodes of a tree are reached: what is terminal has no children. -/
private def Open (n : Node η) : Prop := ∀ c ∈ n.reached, c.kind.isTerminal = true → c.children = []

private theorem open_terminal {n : Node η} (h : n.kind.isTerminal = true) : n.Open ↔ n.children = [] := by
  unfold Open
  rw [reached_eq, entered_terminal h]
  simp [h]

private theorem open_inner {n : Node η} (h : n.kind.isTerminal = false) : n.Open ↔ ∀ c ∈ n.children, c.Open := by
  unfold Open
  rw [reached_eq, entered_inner h, List.forall_mem_cons]
  simp only [h, Bool.false_eq_true, false_implies, true_and, List.mem_flatMap]
  constructor
  · exact fun all c hc k hk => all k ⟨c, hc, hk⟩
  · rintro all k ⟨c, hc, hk⟩
    exact all c hc k hk

/-- Trees side by side are compared one by one. -/
private theorem length_flatMap_reached {ns : List (Node η)}
    (h : ∀ n ∈ ns, n.reached.length ≤ n.size ∧ (n.reached.length = n.size ↔ n.Open)) :
    (ns.flatMap reached).length ≤ total (ns.map size) ∧
      ((ns.flatMap reached).length = total (ns.map size) ↔ ∀ n ∈ ns, n.Open) := by
  induction ns with
  | nil => exact ⟨Nat.le_refl 0, ⟨fun _ _ hn => absurd hn List.not_mem_nil, fun _ => rfl⟩⟩
  | cons n ns ih =>
    obtain ⟨le, eq⟩ := h n List.mem_cons_self
    obtain ⟨le', eq'⟩ := ih fun m hm => h m (List.mem_cons_of_mem n hm)
    rw [List.forall_mem_cons, ← eq, ← eq', List.flatMap_cons, List.length_append, List.map_cons, total]
    omega

private theorem length_reached (n : Node η) :
    n.reached.length ≤ n.size ∧ (n.reached.length = n.size ↔ n.Open) := by
  induction n using induct with
  | step n ih =>
    rw [size_eq, reached_eq, List.length_cons]
    cases hn : n.kind.isTerminal with
    | true =>
      rw [entered_terminal hn, open_terminal hn, ← total_sizes_eq_zero, List.flatMap_nil, List.length_nil]
      omega
    | false =>
      obtain ⟨le, eq⟩ := length_flatMap_reached ih
      rw [entered_inner hn, open_inner hn, ← eq]
      omega

/-- No more positions are reached than there are nodes in the tree. -/
theorem length_reached_le_count (n : Node η) : n.reached.length ≤ n.count := by
  rw [count_eq_size]
  exact (length_reached n).1

/-- All nodes of a tree are at reached positions if and only if no terminal node there has children. -/
theorem length_reached_eq_count (n : Node η) :
    n.reached.length = n.count ↔ ∀ c ∈ n.reached, c.kind.isTerminal = true → c.children = [] := by
  rw [count_eq_size]
  exact (length_reached n).2

end Node

end SharedTree
