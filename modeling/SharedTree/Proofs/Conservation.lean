import SharedTree.Proofs.Balance
import Mathlib.Algebra.Ring.Int.Defs

/-!
# Passes lose no nodes

A pass neither loses nor doubles a node: the tree that comes back has as many nodes as the tree that went in, but for
what the answers of the transform have changed. Nodes below terminal ones count as well, although no pass gets there,
and a replacement counts in full before its own children are visited in their turn.

* `Call.gain` is what a call adds to the number of nodes, and `gained` what all calls on record have added.
* `Conserves` is the balance between two points of a run; it is additive, and `descend_conserves` is the induction over
  the levels.
* `Runner.descend_conserves_count` is the statement for a run of a runner.
-/

namespace SharedTree.Pass

open Transform (Call)

variable {σ : Type}

/-- What a call adds to the number of nodes: the nodes of the answer come in place of those that were asked about. -/
def Transform.Call.gain (c : Call σ) : Int :=
  match c.answer with
  | .ok (some m) => m.count - c.node.count
  | .ok none => -c.node.count
  | .error _ => 0

def gained (calls : List (Call σ)) : Int := (calls.map Call.gain).sum

private theorem gained_cons (c : Call σ) (calls : List (Call σ)) : gained (c :: calls) = c.gain + gained calls := by
  rw [gained, List.map_cons, List.sum_cons, gained]

/-- The number of nodes of some trees together. -/
private def weight (ns : List SharedNode) : Nat := Node.total (ns.map Node.size)

private theorem weight_singleton (n : SharedNode) : weight [n] = n.size := Nat.add_zero _

private theorem weight_append (ns ms : List SharedNode) : weight (ns ++ ms) = weight ns + weight ms := by
  rw [weight, List.map_append, Node.total_append, weight, weight]

/-- Between two points of a run, the nodes that come out are those that go in and what the calls have gained. -/
private def Conserves (p q : Progress (Logged σ)) (ns ms : List SharedNode) : Prop :=
  (weight ms : Int) + gained p.state.2 = weight ns + gained q.state.2

private theorem conserves_additive :
    Additive fun (p q : Progress (Logged σ)) ns ms => Conserves p q ns ms where
  nil _ := rfl
  append {p q r ns ms ns' ms'} first second := by
    unfold Conserves at first second ⊢
    rw [weight_append, weight_append]
    omega
  rowMade h := h

variable {t : Transform σ} {n : SharedNode} {p q : Progress (Logged σ)}

private theorem Conserves.of_removed (h : (t n p.state.1).answer = .ok none) :
    Conserves p (p.heed n (t.recorded n p.state)) [n] [] := by
  have gain : (t.call n p.state.1).gain = -n.count := by simp only [Call.gain, Transform.call, h]
  unfold Conserves
  rw [Transform.recorded_state, gained_cons, gain, weight_singleton, Node.count_eq_size]
  show (0 : Int) + _ = _
  omega

private theorem Conserves.of_answered {m m' : SharedNode} (h : (t n p.state.1).answer = .ok (some m))
    (below : Conserves (p.heed n (t.recorded n p.state)) q [m] [m']) : Conserves p q [n] [m'] := by
  have gain : (t.call n p.state.1).gain = m.count - n.count := by simp only [Call.gain, Transform.call, h]
  unfold Conserves at below ⊢
  rw [Transform.recorded_state, gained_cons, gain, Node.count_eq_size, Node.count_eq_size, weight_singleton m] at below
  rw [weight_singleton n]
  omega

variable {region : Nat} {limit : Nat}

private theorem visitWith_conserves {below : SharedNode → Run (Logged σ) SharedNode}
    (hb : ∀ n, Moves t.recorded limit (below n))
    (conserves : ∀ n : SharedNode, n.Avoids region → ∀ p m q, p.supply.region = region → below n p = .ok m q →
      q.Lawful region → Conserves p q [n] [m])
    {a : Option SharedNode} (hp : p.supply.region = region) (h : visitWith t.recorded below n p = .ok a q)
    (hl : q.Lawful region) : Conserves p q [n] a.toList := by
  rcases visitWith_of_ok hb h hl with ⟨removed, rfl, rfl⟩ | ⟨m, m', answered, ⟨avoid, -⟩, rfl, h'⟩
  · exact .of_removed removed
  · exact .of_answered answered (conserves m avoid _ m' q hp h' hl)

/-- The descent below a node: the node itself stays one node, and its children are put in balance by the visits. -/
private theorem descend_conserves (budget : Nat) (ha : n.Avoids region) (hp : p.supply.region = region)
    {m : SharedNode} (h : descend t.recorded limit budget n p = .ok m q) (hl : q.Lawful region) :
    Conserves p q [n] [m] := by
  induction budget generalizing n p m q with
  | zero => cases h
  | succ budget ih =>
    cases hn : n.kind.isTerminal with
    | true =>
      rw [descend_terminal t.recorded limit budget p hn] at h
      cases h
      rfl
    | false =>
      obtain ⟨g, fs, q₁, rfl, state, -, passage⟩ := descend_of_ok ha hn hp h hl
      have below : ∀ c : SharedNode, c.Avoids region → ∀ p m q, p.supply.region = region →
          descend t.recorded limit budget c p = .ok m q → q.Lawful region → Conserves p q [c] [m] :=
        fun _ hc _ _ _ hp h hl => ih hc hp h hl
      have fields : Conserves (p.deepen (limit - budget)) q₁ n.fields.nodes fs.nodes :=
        conserves_additive.fields (fun v => visitWith_conserves (descend_moves budget) below v.start v.run v.lawful)
          passage
      have before : n.size = 1 + weight n.fields.nodes := n.size_eq
      have afterwards : (Node.mk g n.span n.flags n.kind n.payload fs).size = 1 + weight fs.nodes := Node.size_eq _
      unfold Conserves at fields ⊢
      change (weight fs.nodes : Int) + gained p.state.2 = _ at fields
      rw [weight_singleton, weight_singleton, before, afterwards, state]
      omega

/-- No node is lost or doubled. When a descent succeeds, the number of nodes of the tree that comes back is the number
of nodes of the tree that went in and, summed up over all calls of the transform, the number of nodes of the answer less
that of the node that it was asked about. If the answer is none, it has no nodes. -/
theorem Runner.descend_conserves_count (r : Runner) (region : Nat) (t : Transform σ) (n : SharedNode) (s : σ)
    (orderly : r.Orderly region t (.descend n) s) {m : SharedNode} (h : (r.descend? region t n s).outcome = .ok m) :
    (m.count : Int) = n.count + gained (r.perform region t.recorded (.descend n) (s, [])).state.2 := by
  let start : Progress (Logged σ) := .start region (Op.descend n).entry (s, [])
  obtain ⟨q, run, lawful, -⟩ := orderly.run_of_ok h
  have record : (r.perform region t.recorded (.descend n) (s, [])).state = q.state := by
    rw [Runner.perform_eq, Runner.conclude_state, run]
    rfl
  have conserves : Conserves start q [n] [m] := descend_conserves r.options.limit orderly.avoids rfl run lawful
  unfold Conserves at conserves
  rw [weight_singleton, weight_singleton] at conserves
  rw [record, Node.count_eq_size, Node.count_eq_size]
  change (m.size : Int) + 0 = _ at conserves
  omega

/-- Of two leaves in a row, the first one is removed and a list of two elements comes in place of the second one. The
first element is a terminal node, so that no pass gets to the leaf below it, but it counts as two nodes. -/
theorem Runner.descend_conserves_count_sheaf :
    let array : SharedNode := .mk ⟨2, 1⟩ {} {} .arrayType .nil (.cons (.one (Sample.leaf ⟨2, 0⟩)) .nil)
    let list : SharedNode :=
      .mk ⟨2, 3⟩ {} {} .arrayLiteralExpression .nil (.cons (.row ⟨⟨2, 0⟩, {}, [array, Sample.leaf ⟨2, 2⟩]⟩) .nil)
    let m : SharedNode := .mk ⟨1, 0⟩ {} {} .arrayLiteralExpression .nil (.cons (.row ⟨⟨1, 0⟩, {}, [list]⟩) .nil)
    (Sample.runner.descend? 1 (Transform.pruning list) (Sample.sheaf [⟨0, 0⟩, ⟨0, 1⟩] ⟨0, 2⟩) 0).outcome = .ok m ∧
      (m.count : Int) = 3 + (-1 + (4 - 1)) := by
  intro array list m
  let t := Transform.pruning list
  let n := Sample.sheaf [⟨0, 0⟩, ⟨0, 1⟩] ⟨0, 2⟩
  let calls := [t.call (Sample.leaf ⟨2, 2⟩) 3, t.call array 2, t.call (Sample.leaf ⟨0, 1⟩) 1,
    t.call (Sample.leaf ⟨0, 0⟩) 0]
  have ran : (Sample.runner.descend? 1 t n 0).outcome = .ok m := by rfl
  have record : (Sample.runner.perform 1 t.recorded (.descend n) (0, [])).state.2 = calls := by rfl
  have avoids : n.Avoids 1 := by decide
  have lawful : ∀ c ∈ calls, c.Lawful 1 := by
    intro c hc
    simp only [calls, List.mem_cons, List.not_mem_nil, or_false] at hc
    rcases hc with rfl | rfl | rfl | rfl
    · exact .kept rfl (by decide)
    · exact .kept rfl (by decide)
    · exact .replaced (m := list) rfl (by decide) rfl
    · exact .removed rfl
  have gains : gained calls = -1 + (4 - 1) := by
    simp only [calls, gained, List.map, Call.gain, Transform.call, t, Transform.pruning, Node.count_eq_size]
    rfl
  have size : n.count = 3 := by
    rw [Node.count_eq_size]
    rfl
  have main := Runner.descend_conserves_count Sample.runner 1 t n 0 ⟨avoids, record ▸ lawful⟩ ran
  rw [record, gains, size] at main
  exact ⟨ran, main⟩

end SharedTree.Pass
