import Mathlib.Data.List.FinRange
import SharedTree.Node.Shape
import SharedTree.Node.Size
import SharedTree.Proofs.Listing
import SharedTree.Sample

/-!
# The walk that counts

`Node.count` takes pending nodes from the top of a stack and puts their children there. What it counts is a node for
each path that leads down from the root: a path is a list of child indices, and a node that occurs more than once is at
the end of more than one path.

* `Node.follow` is the node at the end of a path, `Node.paths` are the paths of a tree. `Node.mem_paths`,
  `Node.nodup_paths`: each path that leads to a node is listed once.
* `Census` is a state of the loop, with the nodes that were counted, and `Census.next` is one turn. A turn takes a node
  from what is pending and puts it to what is counted (`Census.claimed_next`), so that both together are the nodes at
  the ends of all paths at any time (`Census.claimed_iterate`).
* `Node.count_walks_paths` is the statement on the whole loop.
-/

namespace SharedTree

variable {η θ : Type}

/-! ### Paths -/

namespace Node

/-- The node at the end of a path: from each node on to the child of the given index. -/
def follow (n : Node η) : List Nat → Option (Node η)
  | [] => some n
  | i :: path => (n.child? i).bind (·.follow path)

/-- The paths of a tree, the path to a node before the paths through it. -/
def paths (n : Node η) : List (List Nat) :=
  [] :: (List.finRange n.children.length).flatMap fun i => n.children[i].paths.map (i.val :: ·)
termination_by sizeOf n
decreasing_by exact sizeOf_lt_of_mem_children (List.getElem_mem _)

/-- The nodes at the ends of all paths, a node before the nodes below it. -/
def everywhere (n : Node η) : List (Node η) := n.paths.filterMap n.follow

private theorem follow_cons (n : Node η) (i : Nat) (path : List Nat) :
    n.follow (i :: path) = (n.child? i).bind (·.follow path) := rfl

/-- A path leads on from a node through one of its children. -/
theorem follow_child (n : Node η) (i : Fin n.children.length) (path : List Nat) :
    n.follow (i.val :: path) = n.children[i].follow path := by
  rw [follow_cons, child?, List.getElem?_eq_getElem i.isLt]
  rfl

/-- The paths of a tree are the paths that lead to a node. -/
theorem mem_paths {n : Node η} {path : List Nat} : path ∈ n.paths ↔ (n.follow path).isSome = true := by
  induction path generalizing n with
  | nil =>
    rw [paths]
    exact ⟨fun _ => rfl, fun _ => List.mem_cons_self⟩
  | cons i path ih =>
    rw [paths, List.mem_cons, List.mem_flatMap]
    constructor
    · rintro (h | ⟨j, -, h⟩)
      · exact absurd h (List.cons_ne_nil i path)
      · obtain ⟨_, hp, he⟩ := List.mem_map.mp h
        obtain ⟨rfl, rfl⟩ := List.cons.inj he
        rw [follow_child]
        exact ih.mp hp
    · intro h
      have hi : i < n.children.length := by
        by_contra out
        rw [follow_cons, child?, List.getElem?_eq_none (Nat.le_of_not_lt out)] at h
        exact absurd h Bool.false_ne_true
      rw [follow_child n ⟨i, hi⟩] at h
      exact .inr ⟨⟨i, hi⟩, List.mem_finRange _, List.mem_map.mpr ⟨path, ih.mpr h, rfl⟩⟩

/-- No path is listed twice. -/
theorem nodup_paths (n : Node η) : n.paths.Nodup := by
  induction n using induct with
  | step n ih =>
    rw [paths, List.nodup_cons, List.nodup_flatMap]
    refine ⟨fun h => ?_, fun i _ => ?_, ?_⟩
    · obtain ⟨_, -, h⟩ := List.mem_flatMap.mp h
      obtain ⟨_, -, h⟩ := List.mem_map.mp h
      exact absurd h (List.cons_ne_nil _ _)
    · exact (ih _ (List.getElem_mem _)).map fun _ _ h => (List.cons.inj h).2
    · refine (List.nodup_finRange _).imp fun {i j} apart path hi hj => apart ?_
      -- The paths through two children begin with different indices.
      obtain ⟨_, -, rfl⟩ := List.mem_map.mp hi
      obtain ⟨_, -, h⟩ := List.mem_map.mp hj
      exact Fin.ext (List.cons.inj h).1.symm

private theorem everywhere_eq (n : Node η) : n.everywhere = n :: n.children.flatMap everywhere := by
  have through (i : Fin n.children.length) :
      (n.children[i].paths.map (i.val :: ·)).filterMap n.follow = n.children[i].everywhere := by
    rw [List.filterMap_map, everywhere]
    exact List.filterMap_congr fun path _ => n.follow_child i path
  have children : (List.finRange n.children.length).map (fun i => n.children[i]) = n.children := by
    rw [← List.ofFn_eq_map]
    exact List.ofFn_getElem
  have root : n.follow [] = some n := rfl
  rw [everywhere, paths, List.filterMap_cons_some root, List.filterMap_flatMap]
  conv_rhs => rw [← children, List.flatMap_map]
  simp only [through]

private theorem length_flatMap_everywhere {ns : List (Node η)} (h : ∀ n ∈ ns, n.everywhere.length = n.size) :
    (ns.flatMap everywhere).length = total (ns.map size) := by
  induction ns with
  | nil => rfl
  | cons n ns ih =>
    rw [List.flatMap_cons, List.length_append, h n List.mem_cons_self,
      ih fun m hm => h m (List.mem_cons_of_mem n hm), List.map_cons, total]

private theorem length_everywhere (n : Node η) : n.everywhere.length = n.count := by
  rw [count_eq_size]
  induction n using induct with
  | step n ih => rw [everywhere_eq, List.length_cons, length_flatMap_everywhere ih, size_eq, Nat.add_comm]

/-- There are as many paths as nodes are counted. -/
theorem length_paths (n : Node η) : n.paths.length = n.count := by
  rw [← length_everywhere, everywhere]
  exact (List.filterMap_length_eq_length.mpr fun _ => mem_paths.mp).symm

/-! ### Trees that are alike -/

private theorem childNodes_shape {a : Arity} (c : Child Shape (Row η Shape) a) :
    (c.map id Row.shape).nodes = c.nodes := by
  cases c with
  | one n => rfl
  | opt n => cases n <;> rfl
  | row r => rfl
  | optRow r => cases r <;> rfl

private theorem fieldNodes_shape {ss : List Slot} (fs : Fields Shape (Row η Shape) ss) :
    (fs.map id Row.shape).nodes = fs.nodes := by
  induction fs with
  | nil => rfl
  | cons c rest ih => rw [Fields.map, Fields.nodes, Fields.nodes, childNodes_shape, ih]

/-- Shapes have the shapes of the children for children. -/
theorem children_shape (n : Node η) : n.shape.children = n.children.map shape := by
  cases n with
  | mk h s f k p fs =>
    rw [shape, fold_mk]
    exact (fieldNodes_shape _).trans (Fields.nodes_map _ fs)

private theorem size_shape (n : Node η) : n.shape.size = n.size := by
  induction n using induct with
  | step n ih =>
    have sizes : n.children.map (size ∘ shape) = n.children.map size := List.map_congr_left ih
    rw [size_eq, children_shape, List.map_map, sizes, ← size_eq]

/-- Trees that are alike have equally many nodes, however handles occur in them. -/
theorem Alike.count_eq {m : Node θ} {n : Node η} (h : m.Alike n) : m.count = n.count := by
  rw [count_eq_size, count_eq_size, ← size_shape m, ← size_shape n, h]

end Node

/-! ### The loop -/

/-- A state of the loop that counts: the nodes that were counted, the last one first, and the nodes that are pending,
with the top of the stack first. -/
structure Census (η : Type) where
  counted : List (Node η)
  pending : List (Node η)

namespace Census

/-- The state before the first turn: the root is counted, and its children are pending. -/
def start (n : Node η) : Census η := ⟨[n], n.children.reverse⟩

/-- One turn of the loop. The node at the top is counted, and its children are put in its place, the last one on top.
With nothing pending the loop is over. -/
def next (c : Census η) : Census η :=
  match c.pending with
  | [] => c
  | n :: pending => ⟨n :: c.counted, n.children.reverse ++ pending⟩

/-- What the loop goes on to count from a state. -/
def result (c : Census η) : Nat := Node.countPending c.counted.length c.pending

/-- The nodes that are counted and those that will be: what is pending stands for all nodes below it as well. -/
def claimed (c : Census η) : List (Node η) := c.counted ++ c.pending.flatMap Node.everywhere

private theorem next_nil {c : Census η} (h : c.pending = []) : c.next = c := by
  rw [next, h]

private theorem next_cons {c : Census η} {n : Node η} {pending : List (Node η)} (h : c.pending = n :: pending) :
    c.next = ⟨n :: c.counted, n.children.reverse ++ pending⟩ := by
  rw [next, h]

/-- A turn of the loop is a step of `Node.countPending`. -/
theorem result_next (c : Census η) : c.next.result = c.result := by
  cases h : c.pending with
  | nil => rw [next_nil h]
  | cons n pending => rw [next_cons h, result, result, h, Node.countPending, List.length_cons]

/-- A turn loses no node and adds none. -/
theorem claimed_next (c : Census η) : c.next.claimed.Perm c.claimed := by
  cases h : c.pending with
  | nil => rw [next_nil h]
  | cons n pending =>
    have below : (n.children.reverse.flatMap Node.everywhere).Perm (n.children.flatMap Node.everywhere) :=
      n.children.reverse_perm.flatMap_right Node.everywhere
    calc c.next.claimed
        = n :: (c.counted ++ (n.children.reverse.flatMap Node.everywhere ++ pending.flatMap Node.everywhere)) := by
          rw [next_cons h, claimed, List.cons_append, List.flatMap_append]
      List.Perm _ (n :: (c.counted ++ (n.children.flatMap Node.everywhere ++ pending.flatMap Node.everywhere))) :=
          ((below.append_right _).append_left _).cons n
      List.Perm _ (c.counted ++ n :: (n.children.flatMap Node.everywhere ++ pending.flatMap Node.everywhere)) :=
          List.perm_middle.symm
      _ = c.claimed := by
          rw [claimed, h, List.flatMap_cons, Node.everywhere_eq, List.cons_append]

/-- With something pending, a turn counts one node more. -/
theorem length_next {c : Census η} (h : c.pending ≠ []) : c.next.counted.length = c.counted.length + 1 := by
  obtain ⟨n, pending, h⟩ := List.exists_cons_of_ne_nil h
  rw [next_cons h, List.length_cons]

private theorem result_iterate (n : Node η) (k : Nat) : (next^[k] (start n)).result = n.count := by
  induction k with
  | zero => rfl
  | succ k ih => rw [Function.iterate_succ_apply', result_next, ih]

/-- At any time, what was counted and what is below the pending nodes is what is at the ends of the paths. -/
theorem claimed_iterate (n : Node η) (k : Nat) : (next^[k] (start n)).claimed.Perm n.everywhere := by
  induction k with
  | zero =>
    rw [Node.everywhere_eq]
    exact (n.children.reverse_perm.flatMap_right Node.everywhere).cons n
  | succ k ih =>
    rw [Function.iterate_succ_apply']
    exact (claimed_next _).trans ih

/-- The loop is over as soon as all nodes are counted. -/
theorem pending_eq_nil_iff (n : Node η) (k : Nat) :
    (next^[k] (start n)).pending = [] ↔ (next^[k] (start n)).counted.length = n.count := by
  have all := (claimed_iterate n k).length_eq
  rw [claimed, List.length_append, Node.length_everywhere] at all
  constructor
  · intro h
    rwa [h, List.flatMap_nil, List.length_nil, Nat.add_zero] at all
  · intro h
    have none : ((next^[k] (start n)).pending.flatMap Node.everywhere).length = 0 := by omega
    cases hp : (next^[k] (start n)).pending with
    | nil => rfl
    | cons m pending =>
      rw [hp, List.flatMap_cons, Node.everywhere_eq] at none
      exact absurd none (Nat.succ_ne_zero _)

/-- Each turn counts one node, until all are counted. -/
theorem length_iterate (n : Node η) (k : Nat) : (next^[k] (start n)).counted.length = min (k + 1) n.count := by
  induction k with
  | zero =>
    have all := Node.length_everywhere n
    rw [Node.everywhere_eq, List.length_cons] at all
    show 1 = min 1 n.count
    omega
  | succ k ih =>
    rw [Function.iterate_succ_apply']
    have ends := pending_eq_nil_iff n k
    by_cases h : (next^[k] (start n)).pending = []
    · rw [next_nil h]
      have := ends.mp h
      omega
    · rw [length_next h]
      have := mt ends.mpr h
      omega

end Census

namespace Node

/-- The count is one more than the counts of the children together. -/
theorem count_eq (n : Node η) : n.count = 1 + total (n.children.map count) := by
  have counts : n.children.map count = n.children.map size := List.map_congr_left fun c _ => count_eq_size c
  rw [count_eq_size, size_eq, counts]

/-- The loop with a stack counts the nodes of a tree. It begins with the children that are listed for the root, and at
each turn it takes the node at the top and puts the children that are listed for it in its place. After each turn it
goes on to the same result, it has counted one node more, and it is over exactly when the count is reached.

What is listed are the children in the slots. The count is one more than the counts of the children together, whatever
the kinds. The nodes that are counted are those at the ends of the paths, each as often as paths lead to it. So trees
that are alike have equal counts, whichever handles they share. -/
theorem count_walks_paths (n : Node η) :
    Census.start n = ⟨[n], n.listed.reverse⟩ ∧
    (∀ k, countPending (Census.next^[k] (Census.start n)).counted.length (Census.next^[k] (Census.start n)).pending =
        n.count ∧
      (Census.next^[k] (Census.start n)).counted.length = min (k + 1) n.count ∧
      ((Census.next^[k] (Census.start n)).pending = [] ↔ n.count ≤ k + 1) ∧
      ∀ m pending, (Census.next^[k] (Census.start n)).pending = m :: pending →
        Census.next^[k + 1] (Census.start n) =
          ⟨m :: (Census.next^[k] (Census.start n)).counted, m.listed.reverse ++ pending⟩) ∧
    n.listed = n.children ∧ n.count = 1 + total (n.listed.map count) ∧
    n.paths.Nodup ∧ (∀ path, path ∈ n.paths ↔ (n.follow path).isSome = true) ∧
    (∀ i path, n.follow (i :: path) = (n.listed[i]?).bind (·.follow path)) ∧ n.count = n.paths.length ∧
    (Census.next^[n.count - 1] (Census.start n)).counted.Perm (n.paths.filterMap n.follow) ∧
    ∀ m : Node θ, m.Alike n → m.count = n.count := by
  have ends (k : Nat) : (Census.next^[k] (Census.start n)).pending = [] ↔ n.count ≤ k + 1 := by
    rw [Census.pending_eq_nil_iff, Census.length_iterate]
    omega
  have turns (k : Nat) (m : Node η) (pending : List (Node η))
      (h : (Census.next^[k] (Census.start n)).pending = m :: pending) : Census.next^[k + 1] (Census.start n) =
        ⟨m :: (Census.next^[k] (Census.start n)).counted, m.listed.reverse ++ pending⟩ := by
    rw [Function.iterate_succ_apply', Census.next_cons h, m.listed_eq]
  have all := Census.claimed_iterate n (n.count - 1)
  rw [Census.claimed, (ends (n.count - 1)).mpr (by omega), List.flatMap_nil, List.append_nil] at all
  rw [n.listed_eq]
  exact ⟨rfl, fun k => ⟨Census.result_iterate n k, Census.length_iterate n k, ends k, turns k⟩, rfl, n.count_eq,
    n.nodup_paths, fun _ => mem_paths, n.follow_cons, n.length_paths.symm, all, fun _ h => h.count_eq⟩

end Node

/-- A type that lists two leaves. It is of a terminal kind. -/
def Sample.pair (first second h : Handle) : SharedNode :=
  .mk h {} {} .tupleType .nil (.cons (.row ⟨h, {}, [leaf first, leaf second]⟩) .nil)

/-- The leaves of a pair are counted separately, be they one node or two. The second one is on top at the first turn. -/
theorem Node.count_walks_paths_pair :
    let m := Sample.pair ⟨0, 0⟩ ⟨0, 0⟩ ⟨0, 1⟩
    let n := Sample.pair ⟨0, 0⟩ ⟨0, 2⟩ ⟨0, 1⟩
    m.Alike n ∧ m.count = n.count ∧ m.count = 3 ∧ n.listed = [Sample.leaf ⟨0, 0⟩, Sample.leaf ⟨0, 2⟩] ∧
      (Census.next (Census.start n)).counted = [Sample.leaf ⟨0, 2⟩, n] ∧
      (Census.next (Census.start n)).pending = [Sample.leaf ⟨0, 0⟩] := by
  intro m n
  obtain ⟨-, turns, -, -, -, -, -, -, -, alike⟩ := count_walks_paths (θ := Handle) n
  have turn := (turns 0).2.2.2 (Sample.leaf ⟨0, 2⟩) [Sample.leaf ⟨0, 0⟩] rfl
  exact ⟨rfl, alike m rfl, count_eq_size m, rfl, congrArg Census.counted turn, congrArg Census.pending turn⟩

end SharedTree
