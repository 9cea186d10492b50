import SharedTree.Proofs.Reach
import SharedTree.Proofs.Sharing

/-!
# Passes that keep what they meet

A transform that keeps all nodes that a pass reaches below the root is asked about exactly these nodes, parents before
children. As long as the tree has no more levels than the limit allows, the pass gives back the very tree and counts
no change. Nothing need be known of the handles, as none is drawn.

* `Sequential` is a relation of computations that come back with what went in and what they go through on the way. It
  passes from the visits of nodes to the visits of what holds the nodes (`Sequential.visitFields`).
* `Tours` says of a computation that it asks about some nodes, one by one, and keeps them.
* `descend_tours` is the induction over the levels, and `Runner.descend_kept` and `Runner.descend_returns` are the
  statements for a run of a runner.
-/

namespace SharedTree.Pass

open Transform (Call)

variable {σ α β : Type}

/-- The answer about a node is the node itself, in every state. -/
def Transform.Keeps (t : Transform σ) (n : SharedNode) : Prop := ∀ s, (t n s).answer = .ok (some n)

/-! ### Going through nodes -/

/-- A relation that tells what a computation goes through and what it comes to. It passes from the steps of a
computation to the whole, where what the steps go through is put together in order. -/
structure Sequential {ξ : Type} (T : {α : Type} → List ξ → Run σ α → α → Prop) : Prop where
  pure {α : Type} (a : α) : T [] (Pure.pure a) a
  bind {α β : Type} {ns ms : List ξ} {x : Run σ α} {a : α} {f : α → Run σ β} {b : β} (hx : T ns x a)
    (hf : T ms (f a) b) : T (ns ++ ms) (x >>= f) b

namespace Sequential

variable {ξ : Type} {T : {α : Type} → List ξ → Run σ α → α → Prop} (seq : Sequential T)

include seq

/-- What follows without going through anything does not add to the list. -/
theorem bind_pure {ns : List ξ} {x : Run σ α} {a : α} {f : α → Run σ β} {b : β} (hx : T ns x a)
    (hf : f a = Pure.pure b) : T ns (x >>= f) b := by
  have next : T [] (f a) b := by
    rw [hf]
    exact seq.pure b
  simpa only [List.append_nil] using seq.bind hx next

variable {visit : SharedNode → Run σ (Option SharedNode)} {listed : SharedNode → List ξ}

theorem visitItems (items : List SharedNode) (hv : ∀ n ∈ items, T (listed n) (visit n) (some n)) :
    T (items.flatMap listed) (visitItems visit items) none := by
  induction items with
  | nil => exact seq.pure none
  | cons n rest ih =>
    have first := hv n List.mem_cons_self
    have others := ih fun m hm => hv m (List.mem_cons_of_mem n hm)
    have unchanged : rejoin n rest (some n) none = none := by simp [rejoin, Node.same_self]
    exact seq.bind first (seq.bind_pure others (congrArg Pure.pure unchanged))

theorem visitRowWith (r : SharedRow) (hv : ∀ n ∈ r.items, T (listed n) (visit n) (some n)) :
    T (r.items.flatMap listed) (visitRowWith visit r) r :=
  seq.bind_pure (seq.visitItems r.items hv) rfl

theorem visitChild (parent : Kind) (label : String) {a : Arity} (c : Child SharedNode SharedRow a)
    (hv : ∀ n ∈ c.nodes, T (listed n) (visit n) (some n)) :
    T (c.nodes.flatMap listed) (visitChild visit parent label c) c := by
  cases c with
  | one n =>
    rw [Child.nodes, List.flatMap_singleton]
    exact seq.bind_pure (hv n (by simp [Child.nodes])) rfl
  | opt n =>
    cases n with
    | none => exact seq.pure _
    | some n =>
      rw [Child.nodes, Option.toList_some, List.flatMap_singleton]
      exact seq.bind_pure (hv n (by simp [Child.nodes])) rfl
  | row r => exact seq.bind_pure (seq.visitRowWith r hv) rfl
  | optRow r =>
    cases r with
    | none => exact seq.pure _
    | some r => exact seq.bind_pure (seq.visitRowWith r hv) rfl

/-- If every visit of a child gives the child back, the visits of all slots give back what is in them. -/
theorem visitFields (parent : Kind) {ss : List Slot} (fs : Fields SharedNode SharedRow ss)
    (hv : ∀ n ∈ fs.nodes, T (listed n) (visit n) (some n)) :
    T (fs.nodes.flatMap listed) (visitFields visit parent fs) fs := by
  induction fs with
  | nil => exact seq.pure _
  | @cons s ss c rest ih =>
    rw [Fields.nodes, List.flatMap_append]
    have first := seq.visitChild parent s.label c fun n hn => hv n (List.mem_append_left rest.nodes hn)
    have others := ih fun n hn => hv n (List.mem_append_right c.nodes hn)
    exact seq.bind first (seq.bind_pure others rfl)

end Sequential

/-! ### Tours -/

/-- From every point the computation comes to the result. On the way the transform is asked about the given nodes, in
this order, and nothing changes. -/
def Tours (ns : List SharedNode) (x : Run (Logged σ) α) (a : α) : Prop :=
  ∀ p, ∃ q, x p = .ok a q ∧ Calm p q ∧ q.state.2.map Call.node = ns.reverse ++ p.state.2.map Call.node

section Tours

/-- Tours are put together from step to step. -/
theorem tours_sequential : Sequential fun {α : Type} ns (x : Run (Logged σ) α) a => Tours ns x a where
  pure a := fun p => ⟨p, rfl, .refl p, rfl⟩
  bind hx hf := by
    intro p
    obtain ⟨q, hq, calm, calls⟩ := hx p
    obtain ⟨r, hr, calm', calls'⟩ := hf q
    refine ⟨r, ?_, calm.trans calm', ?_⟩
    · rw [bind_of_ok hq, hr]
    · rw [calls', calls, List.reverse_append, List.append_assoc]

variable {t : Transform σ} {n : SharedNode}

private theorem visitWith_tours {below : SharedNode → Run (Logged σ) SharedNode} (keeps : t.Keeps n)
    (hb : Tours (n.entered.flatMap Node.reached) (below n) n) :
    Tours n.reached (visitWith t.recorded below n) (some n) := by
  intro p
  have answer : (t n p.state.1).answer = .ok (some n) := keeps p.state.1
  have deeper : Tours (n.entered.flatMap Node.reached) (below n >>= fun m => Pure.pure (some m)) (some n) :=
    tours_sequential.bind_pure hb rfl
  obtain ⟨q, hq, calm, calls⟩ := deeper (p.heed n (t.recorded n p.state))
  refine ⟨q, ?_, (Calm.of_kept answer n.same_self).trans calm, ?_⟩
  · rw [visitWith_some answer, hq]
  · rw [calls, Transform.recorded_state, Node.reached_eq, List.reverse_cons, List.append_assoc]
    rfl

/-- The descent below a node with as many levels as the tree has. -/
theorem descend_tours (limit : Nat) {budget : Nat} (fits : n.levels ≤ budget)
    (keeps : ∀ c ∈ n.entered.flatMap Node.reached, t.Keeps c) :
    Tours (n.entered.flatMap Node.reached) (descend t.recorded limit budget n) n := by
  induction budget generalizing n with
  | zero =>
    rw [Node.levels_eq] at fits
    omega
  | succ budget ih =>
    intro p
    have calm : Calm p (p.deepen (limit - budget)) := ⟨rfl, rfl⟩
    cases hn : n.kind.isTerminal with
    | true =>
      rw [Node.entered_terminal hn, descend_terminal t.recorded limit budget p hn]
      exact ⟨_, rfl, calm, rfl⟩
    | false =>
      rw [Node.entered_inner hn] at keeps ⊢
      let visit := visitWith t.recorded (descend t.recorded limit budget)
      have visits : ∀ c ∈ n.fields.nodes, Tours c.reached (visit c) (some c) := by
        intro c hc
        have lower : c.levels ≤ budget := by
          rw [Node.levels_eq, Node.entered_inner hn] at fits
          exact Node.height_le_iff.mp (show Node.height n.children ≤ budget by omega) c hc
        have kept : ∀ k ∈ c.reached, t.Keeps k := fun k hk => keeps k (List.mem_flatMap_of_mem hc hk)
        rw [Node.reached_eq, List.forall_mem_cons] at kept
        exact visitWith_tours kept.1 (ih lower kept.2)
      obtain ⟨q, hq, calm', calls⟩ := tours_sequential.visitFields n.kind n.fields visits (p.deepen (limit - budget))
      refine ⟨q, ?_, calm.trans calm', calls⟩
      rw [descend_inner t.recorded limit budget p hn, bind_of_ok hq]
      exact rebuild_same n.fields.same_self

end Tours

/-- A run below a node whose levels are within the limit, with a transform that keeps what it is asked about: the node
comes back, no change is counted, and the calls are about the reached nodes below it. -/
theorem Runner.descend_kept (r : Runner) (region : Nat) {t : Transform σ} {n : SharedNode} (s : σ)
    (fits : n.levels ≤ r.options.limit) (keeps : ∀ c ∈ n.reached.tail, t.Keeps c) :
    let report := r.perform region t.recorded (.descend n) (s, [])
    report.outcome = .ok n ∧
      (report.stats.replaced = 0 ∧ report.stats.removed = 0 ∧ report.stats.rebuilt = 0) ∧
      report.state.2.reverse.map Call.node = n.reached.tail := by
  rw [Node.tail_reached] at keeps ⊢
  let start : Progress (Logged σ) := .start region (Op.descend n).entry (s, [])
  obtain ⟨q, hq, calm, calls⟩ := descend_tours r.options.limit fits keeps start
  have later : Later start q := .of_moves (descend_moves r.options.limit n) hq
  have ends : r.perform region t.recorded (.descend n) (s, []) = r.conclude (.ok n q) :=
    (r.perform_eq region t.recorded (.descend n) (s, [])).trans (congrArg r.conclude hq)
  rw [ends]
  refine ⟨rfl, calm.stats later, ?_⟩
  show q.state.2.reverse.map Call.node = _
  rw [List.map_reverse, calls]
  show (_ ++ []).reverse = _
  rw [List.append_nil, List.reverse_reverse]

/-- The same without a record of the calls. -/
theorem Runner.descend_returns (r : Runner) (region : Nat) {t : Transform σ} {n : SharedNode} (s : σ)
    (fits : n.levels ≤ r.options.limit) (keeps : ∀ c ∈ n.reached.tail, t.Keeps c) :
    let report := r.descend? region t n s
    report.outcome = .ok n ∧
      report.stats.replaced = 0 ∧ report.stats.removed = 0 ∧ report.stats.rebuilt = 0 := by
  obtain ⟨outcome, stats, -⟩ := r.descend_kept region s fits keeps
  have unrecorded := r.perform_recorded (t := t) region (.descend n) s []
  exact ⟨(congrArg Report.outcome unrecorded).symm.trans outcome, congrArg Report.stats unrecorded ▸ stats⟩

end SharedTree.Pass
