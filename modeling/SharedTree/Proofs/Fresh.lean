import SharedTree.Node.Size
import SharedTree.Proofs.Moment
import SharedTree.Proofs.Record
import SharedTree.Sample

/-!
# New handles

A pass compares handles where it means nodes. That is sound as long as two things hold of the run. The handles that
the pass draws are not yet in use: no node that it meets has a handle of its region (`Node.Avoids`). And a node is
determined by its handle: an answer with the handle of the node that was asked about is that node. Of the calls of a
run both are put together in `Transform.Call.Lawful`.

* `Op.avoids_of_within`: if the operand of a run avoids the region of the pass and the calls are lawful, every operand
  inside the run avoids the region as well.
-/

namespace SharedTree

variable {α β ρ η : Type}

/-! ### The rows and handles of a node -/

def Child.rows : {a : Arity} → Child α ρ a → List ρ
  | _, .one _ => []
  | _, .opt _ => []
  | _, .row r => [r]
  | _, .optRow r => r.toList

/-- The rows of all fields, in the order of the slots. -/
def Fields.rows : {ss : List Slot} → Fields α ρ ss → List ρ
  | _, .nil => []
  | _, .cons c rest => c.rows ++ rest.rows

/-- All handles of a tree, those of its rows included. -/
def Node.handles : Node η → List η :=
  Node.fold fun h _ _ _ _ fields => h :: (fields.rows.map Row.handle ++ fields.nodes.flatten)

private theorem Child.rows_handles_map (f : α → β) {a : Arity} (c : Child α (Row η α) a) :
    (c.map f (Row.map f)).rows.map Row.handle = c.rows.map Row.handle := by
  cases c with
  | one a => rfl
  | opt a => rfl
  | row r => rfl
  | optRow r => cases r <;> rfl

theorem Fields.rows_handles_map (f : α → β) {ss : List Slot} (fs : Fields α (Row η α) ss) :
    (fs.map f (Row.map f)).rows.map Row.handle = fs.rows.map Row.handle := by
  induction fs with
  | nil => rfl
  | cons c rest ih => simp only [Fields.map, Fields.rows, List.map_append, ih, Child.rows_handles_map]

private theorem Node.handles_eq (n : Node η) :
    n.handles = n.handle :: (n.fields.rows.map Row.handle ++ n.children.flatMap Node.handles) := by
  cases n with
  | mk h s f k p fs =>
    rw [Node.handles, Node.fold_mk, Fields.rows_handles_map, Fields.nodes_map, List.flatMap_def]
    rfl

/-- No handle of a tree is of a region. -/
def Node.Avoids (region : Nat) (n : SharedNode) : Prop := ∀ h ∈ n.handles, h.region ≠ region

instance (region : Nat) (n : SharedNode) : Decidable (n.Avoids region) :=
  inferInstanceAs (Decidable (∀ h ∈ n.handles, h.region ≠ region))

def Row.Avoids (region : Nat) (r : SharedRow) : Prop :=
  r.handle.region ≠ region ∧ ∀ n ∈ r.items, n.Avoids region

def Child.Avoids (region : Nat) {a : Arity} (c : Child SharedNode SharedRow a) : Prop :=
  (∀ n ∈ c.nodes, n.Avoids region) ∧ ∀ r ∈ c.rows, r.handle.region ≠ region

/-- No handle in some fields or below them is of a region. -/
def Fields.Avoids (region : Nat) {ss : List Slot} (fs : Fields SharedNode SharedRow ss) : Prop :=
  (∀ n ∈ fs.nodes, n.Avoids region) ∧ ∀ r ∈ fs.rows, r.handle.region ≠ region

section Avoids

variable {region : Nat}

/-- A tree has no handle of a region if the root has none and nothing in its slots has. -/
theorem Node.avoids_iff {n : SharedNode} :
    n.Avoids region ↔ n.handle.region ≠ region ∧ n.fields.Avoids region := by
  unfold Node.Avoids Fields.Avoids
  rw [Node.handles_eq]
  simp only [List.mem_cons, List.mem_append, List.mem_map, List.mem_flatMap]
  constructor
  · intro h
    refine ⟨h _ (.inl rfl), ?_, ?_⟩
    · exact fun c hc g hg => h g (.inr (.inr ⟨c, hc, hg⟩))
    · exact fun r hr => h _ (.inr (.inl ⟨r, hr, rfl⟩))
  · rintro ⟨hn, hc, hr⟩ g (rfl | ⟨r, hmem, rfl⟩ | ⟨c, hmem, hg⟩)
    · exact hn
    · exact hr r hmem
    · exact hc c hmem g hg

theorem Fields.avoids_cons {s : Slot} {ss : List Slot} {c : Child SharedNode SharedRow s.arity}
    {rest : Fields SharedNode SharedRow ss} :
    (Fields.cons c rest).Avoids region ↔ c.Avoids region ∧ rest.Avoids region := by
  simp only [Fields.Avoids, Child.Avoids, Fields.nodes, Fields.rows, List.mem_append, or_imp, forall_and]
  exact and_and_and_comm

theorem Fields.Avoids.held {ss : List Slot} {fs : Fields SharedNode SharedRow ss} (h : fs.Avoids region) {s : Slot}
    {c : Child SharedNode SharedRow s.arity} (held : fs.Holds s c) : c.Avoids region := by
  induction held with
  | head c rest => exact (Fields.avoids_cons.mp h).1
  | tail d _ ih => exact ih (Fields.avoids_cons.mp h).2

end Avoids

namespace Pass

open Transform (Call)

variable {σ : Type}

/-- No handle of the operand of an operation is of a region. -/
def Op.Avoids (region : Nat) : Op → Prop
  | .descend n => n.Avoids region
  | .visit n => ∀ m ∈ n, m.Avoids region
  | .visitRow r => r.Avoids region

/-- The answer of a call, if it is a node, has no handles of the region of the pass, and it is the node that was asked
about if it has the handle of that node. -/
def Transform.Call.Lawful (region : Nat) (c : Call σ) : Prop :=
  ∀ m, c.answer = .ok (some m) → m.Avoids region ∧ (m.same c.node = true → m = c.node)

section Lawful

variable {region : Nat} {c : Call σ}

theorem Transform.Call.Lawful.removed (h : c.answer = .ok none) : c.Lawful region := by
  intro m hm
  rw [h] at hm
  cases hm

theorem Transform.Call.Lawful.kept (h : c.answer = .ok (some c.node)) (avoid : c.node.Avoids region) :
    c.Lawful region := by
  intro m hm
  rw [h] at hm
  cases hm
  exact ⟨avoid, fun _ => rfl⟩

theorem Transform.Call.Lawful.replaced {m : SharedNode} (h : c.answer = .ok (some m)) (avoid : m.Avoids region)
    (new : m.same c.node = false) : c.Lawful region := by
  intro m' hm
  rw [h] at hm
  cases hm
  exact ⟨avoid, fun same => absurd same (by rw [new]; exact Bool.false_ne_true)⟩

end Lawful

def Progress.Lawful (region : Nat) (p : Progress (Logged σ)) : Prop :=
  ∀ c ∈ p.state.2, c.Lawful region

section Avoids

variable {region : Nat}

theorem Progress.Lawful.of_later {p q : Progress (Logged σ)} (h : q.Lawful region) (hl : Later p q) :
    p.Lawful region := fun c hc => h c (hl.record.mem hc)

private theorem avoids_of_turn {a : Arity} {c : Child SharedNode SharedRow a} (h : c.Avoids region) {op : Op}
    (turn : childOp? c = some op) : op.Avoids region := by
  obtain ⟨hnodes, hrows⟩ := h
  cases c with
  | one n =>
    obtain rfl := Option.some.inj turn
    intro m hm
    obtain rfl := Option.some.inj hm
    exact hnodes _ (by simp [Child.nodes])
  | opt n =>
    cases n with
    | none => exact absurd turn (by simp [childOp?])
    | some n =>
      obtain rfl := Option.some.inj turn
      intro m hm
      obtain rfl := Option.some.inj hm
      exact hnodes _ (by simp [Child.nodes])
  | row r =>
    obtain rfl := Option.some.inj turn
    exact ⟨hrows r (by simp [Child.rows]), fun n hn => hnodes n hn⟩
  | optRow r =>
    cases r with
    | none => exact absurd turn (by simp [childOp?])
    | some r =>
      obtain rfl := Option.some.inj turn
      exact ⟨hrows r (by simp [Child.rows]), fun n hn => hnodes n hn⟩

variable {t : Transform σ} {limit : Nat} {m m' : Moment (Logged σ)}

private theorem Op.avoids_of_nests (h : Nests t.recorded limit m m') (hm : m.op.Avoids region)
    (hl : (after (m.run t.recorded limit)).Lawful region) : m'.op.Avoids region := by
  have hback : Later (after (m'.run t.recorded limit)) (after (m.run t.recorded limit)) := .of_reaches h.back
  cases h with
  | @answer above place n n' p h =>
    have hmove : Reaches t.recorded limit (p.heed n (t.recorded n p.state)) _ :=
      descend_moves (limit - above.length) n' _
    have hlater := (Later.of_reaches hmove).trans hback
    have hcall : (t.call n p.state.1).Lawful region := hl.of_later hlater _ (by simp [Transform.recorded_state])
    exact (hcall n' h).1
  | child room inner held turn reach back =>
    exact avoids_of_turn ((Node.avoids_iff.mp hm).2.held held) turn
  | element mem reach back =>
    intro n hn
    obtain rfl := Option.some.inj hn
    exact hm.2 _ mem

/-- The operands of all operations inside a run avoid the region of the pass if the first one does and the calls are
lawful. -/
theorem Op.avoids_of_within (h : Within t.recorded limit m m') (hm : m.op.Avoids region)
    (hl : (after (m.run t.recorded limit)).Lawful region) : m'.op.Avoids region := by
  induction h with
  | refl => exact hm
  | tail hw hn ih => exact avoids_of_nests hn ih (hl.of_later (Later.of_reaches (Within.back hw)))

end Avoids

/-- A run in which handles can be trusted: the handles that it draws are new, and its calls are lawful. -/
structure Runner.Orderly (r : Runner) (region : Nat) (t : Transform σ) (op : Op) (s : σ) : Prop where
  avoids : op.Avoids region
  lawful : ∀ c ∈ (r.perform region t.recorded op (s, [])).state.2, c.Lawful region

namespace Runner.Orderly

variable {r : Runner} {region : Nat} {t : Transform σ} {op : Op} {s : σ} (h : r.Orderly region t op s)

include h

theorem lawful_after :
    (after (op.run t.recorded r.options.limit r.options.limit (.start region op.entry (s, [])))).Lawful region := by
  have := h.lawful
  rwa [Runner.perform_eq, Runner.conclude_state] at this

/-- What can be said of every moment of such a run: its operand has none of the handles that are drawn, they are drawn
in the same region, and the calls until the end of the operation are lawful. -/
theorem at_moment {m : Moment (Logged σ)} (hm : m ∈ r.moments region t.recorded op (s, [])) :
    m.op.Avoids region ∧ m.progress.supply.region = region ∧
      (after (m.run t.recorded r.options.limit)).Lawful region := by
  let start : Progress (Logged σ) := .start region op.entry (s, [])
  have within : Within t.recorded r.options.limit ⟨[], .root, op, start⟩ m := op.within_of_mem_moments start m hm
  have later : Later start m.progress := .of_reaches (Within.reaches within)
  have back : Later (after (m.run t.recorded r.options.limit)) _ := .of_reaches (Within.back within)
  exact ⟨Op.avoids_of_within within h.avoids h.lawful_after, later.region, h.lawful_after.of_later back⟩

omit h in
theorem outcome_recorded :
    outcome (op.run t.recorded r.options.limit r.options.limit (.start region op.entry (s, []))) =
      (r.perform region t op s).outcome := by
  rw [← Runner.conclude_outcome r, ← Runner.perform_eq]
  exact congrArg Report.outcome (Runner.perform_recorded r region op s [])

/-- The computation behind a run that succeeds. -/
theorem run_of_ok {a : op.Result} (ok : (r.perform region t op s).outcome = .ok a) :
    ∃ q, op.run t.recorded r.options.limit r.options.limit (.start region op.entry (s, [])) = .ok a q ∧
      q.Lawful region ∧ (r.perform region t op s).stats = q.stats := by
  have run := outcome_eq_ok (Runner.Orderly.outcome_recorded.trans ok)
  refine ⟨_, run, h.lawful_after, ?_⟩
  rw [← Runner.conclude_stats r, ← Runner.perform_eq]
  exact (congrArg Report.stats (Runner.perform_recorded r region op s [])).symm

end Runner.Orderly

end Pass

/-! ### Small runs -/

namespace Sample

open Pass

/-- A node that holds leaves in a row. -/
def sheaf (leaves : List Handle) (h : Handle) : SharedNode :=
  .mk h {} {} .arrayLiteralExpression .nil (.cons (.row ⟨⟨h.region, 0⟩, {}, leaves.map leaf⟩) .nil)

/-- A runner that opens no more than three levels. -/
def runner : Runner := { options := { maxDepth := 3 } }

/-- The visit of a twig in which the leaf becomes another one. -/
def grafted : Report (Nat × List (Transform.Call Nat)) (Option SharedNode) :=
  runner.perform 1 (Transform.swapping 1 (some (leaf ⟨2, 0⟩))).recorded (.visit (some twig)) (0, [])

theorem grafted_avoids : (Op.visit (some twig)).Avoids 1 := by
  rintro n ⟨rfl⟩
  decide

theorem grafted_lawful : ∀ c ∈ grafted.state.2, c.Lawful 1 := by
  let t := Transform.swapping 1 (some (leaf ⟨2, 0⟩))
  have record : grafted.state.2 = [t.call (leaf ⟨0, 0⟩) 1, t.call twig 0] := rfl
  intro c hc
  rw [record] at hc
  simp only [List.mem_cons, List.not_mem_nil, or_false] at hc
  rcases hc with rfl | rfl
  · exact .replaced rfl (by decide) rfl
  · exact .kept rfl (by decide)

end Sample

end SharedTree
