import SharedTree.Node.Basic

/-!
# The number of nodes of a tree

`Node.size` counts by recursion. `Node.count` counts with a list of the nodes that are still to be
looked at, so that the depth of the tree does not matter; a node that occurs more than once is
counted each time. `Node.count_eq_size` says that the two agree.
-/

namespace SharedTree

variable {α β η : Type}

/-- The nodes of a child after a map are the mapped nodes. -/
theorem Child.nodes_map (f : α → β) {a : Arity} (c : Child α (Row η α) a) :
    (c.map f (Row.map f)).nodes = c.nodes.map f := by
  cases c with
  | one n => rfl
  | opt n => cases n <;> rfl
  | row r => rfl
  | optRow r => cases r <;> rfl

/-- The nodes of fields after a map are the mapped nodes. -/
theorem Fields.nodes_map (f : α → β) {ss : List Slot} (fs : Fields α (Row η α) ss) :
    (fs.map f (Row.map f)).nodes = fs.nodes.map f := by
  induction fs with
  | nil => rfl
  | cons c rest ih => simp [Fields.map, Fields.nodes, ih, Child.nodes_map]

namespace Node

/-- The total of some counts. -/
def total : List Nat → Nat
  | [] => 0
  | n :: ns => n + total ns

theorem total_append (ms ns : List Nat) : total (ms ++ ns) = total ms + total ns := by
  induction ms with
  | nil => simp [total]
  | cons m ms ih => simp only [List.cons_append, total, ih, Nat.add_assoc]

theorem total_reverse (ns : List Nat) : total ns.reverse = total ns := by
  induction ns with
  | nil => rfl
  | cons n ns ih =>
    rw [List.reverse_cons, total_append, ih]
    simp only [total]
    omega

/-- The number of nodes of a tree, the root included. -/
def size : Node η → Nat := fold fun _ _ _ _ _ sizes => 1 + total sizes.nodes

/-- A tree has one node more than the trees of its children have together. -/
theorem size_eq (n : Node η) : n.size = 1 + total (n.children.map size) := by
  cases n with
  | mk h s f k p fs => rw [size, fold_mk, Fields.nodes_map]; rfl

/-- The children of a node in place of the node: what is left to count is one node less. -/
private theorem total_pending (n : Node η) (pending : List (Node η)) :
    total ((n :: pending).map size) = 1 + total ((n.children.reverse ++ pending).map size) := by
  rw [List.map_append, List.map_reverse, total_append, total_reverse, List.map_cons, total,
    size_eq n, Nat.add_assoc]

/-- Counts the nodes of the trees on a list, the last child of a node before the others. -/
def countPending (counted : Nat) : List (Node η) → Nat
  | [] => counted
  | n :: pending => countPending (counted + 1) (n.children.reverse ++ pending)
termination_by pending => total (pending.map size)
decreasing_by
  rw [total_pending]
  omega

/-- The number of nodes of a tree, found with a list of pending nodes. -/
def count (n : Node η) : Nat := countPending 1 n.children.reverse

/-- What is counted in the end is what was counted so far and the sizes of the pending trees. -/
theorem countPending_eq (counted : Nat) (pending : List (Node η)) :
    countPending counted pending = counted + total (pending.map size) := by
  fun_induction countPending counted pending with
  | case1 => rfl
  | case2 counted n pending ih => rw [ih, total_pending, Nat.add_assoc]

/-- Counting with pending nodes agrees with the recursive size. -/
theorem count_eq_size (n : Node η) : n.count = n.size := by
  rw [count, countPending_eq, size_eq, List.map_reverse, total_reverse]

end Node

end SharedTree
