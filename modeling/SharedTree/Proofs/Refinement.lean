import SharedTree.Proofs.Parallel
import SharedTree.Proofs.Sharing

/-!
# Passes with and without sharing

A pass that shares does the same as one that makes every node anew (`Plain`). The two ask the transform about the same
nodes in the same order and in the same states. They end in the same state of the caller, with the same error or with
the same tree up to handles.

* `Mirrors` says this of a plain computation and a sharing one, inside a lawful run. It is an instance of `Parallel`.
* `rowOf_image` and `rebuild_image` are the two steps at which the sharing pass decides whether to make something.
* Where the sharing pass compares handles, `Shares` tells that it loses nothing: what has the old handle is the old
  thing.
* `Runner.perform_refines_plain` is the statement for a run of a runner.
-/

namespace SharedTree

/-! ### Images of trees -/

section Image

variable {α β γ ρ τ υ : Type}

private theorem Child.map_map (f : α → β) (g : ρ → τ) (f' : β → γ) (g' : τ → υ) {a : Arity} (c : Child α ρ a) :
    (c.map f g).map f' g' = c.map (f' ∘ f) (g' ∘ g) := by
  cases c with
  | one a => rfl
  | opt a => cases a <;> rfl
  | row r => rfl
  | optRow r => cases r <;> rfl

private theorem Fields.map_map (f : α → β) (g : ρ → τ) (f' : β → γ) (g' : τ → υ) {ss : List Slot}
    (fs : Fields α ρ ss) : (fs.map f g).map f' g' = fs.map (f' ∘ f) (g' ∘ g) := by
  induction fs with
  | nil => rfl
  | cons c rest ih =>
    show Fields.cons _ _ = Fields.cons _ _
    rw [ih, Child.map_map]

/-- The shape of a node has the shapes of its children in the slots. -/
theorem Node.shape_eq (n : SharedNode) :
    n.shape = .mk () n.span n.flags n.kind n.payload (n.fields.map Node.shape Row.image) := by
  cases n with
  | mk h s f k p fs =>
    rw [Node.shape, Node.fold_mk, Fields.map_map]
    rfl

end Image

namespace Pass

open Transform (Call)

variable {σ α β : Type}

/-! ### Keeping step -/

/-- If the result of one computation is the image of that of the other one, so is the outcome. -/
theorem Ends.eq_map {f : α → β} {x : Except Halt α} {y : Except Halt β} (h : Ends (fun a b => f a = b) x y) :
    y = x.map f := by
  cases h with
  | ok h => exact congrArg Except.ok h.symm
  | error e => rfl

/-- At points with the same state of the caller, inside a lawful run, the plain computation comes to the image of what
the sharing one comes to. -/
abbrev Mirrors (region : Nat) (y : Plain.Run (Logged σ) β) (x : Run (Logged σ) α) (f : α → β) : Prop :=
  Parallel (fun p s => p.supply.region = region ∧ s = p.state) (fun p _ => p.Lawful region) x y (fun a b => f a = b)

/-- A run that is lawful in the end was so before, as long as the computation only moves by steps. -/
theorem Moves.backward {t : Transform σ} {limit region : Nat} {x : Run (Logged σ) α} (hx : Moves t.recorded limit x)
    {π : Type} : Backward (fun p (_ : π) => p.Lawful region) x :=
  fun p _ lawful => lawful.of_later (.of_reaches (hx p))

/-- Where the state of the caller stays, a condition on the state is not affected. -/
theorem backward_of_state {π : Type} {fair : Progress σ → π → Prop} {x : Run σ α}
    (hx : ∀ p, (after (x p)).state = p.state)
    (congr : ∀ p p' q, p.state = p'.state → fair p q → fair p' q) : Backward fair x :=
  fun p q fairly => congr (after (x p)) p q (hx p) fairly

/-! ### What the steps come to when handles are forgotten -/

/-- What follows the visits of the elements of a row. -/
def rowOf (r : SharedRow) : Option (List SharedNode) → Run σ SharedRow
  | none => return r
  | some items => Run.build (Row.create items r.span)

/-- The visit of a row in two steps. -/
theorem visitRowWith_eq (visit : SharedNode → Run σ (Option SharedNode)) (r : SharedRow) :
    visitRowWith visit r = (visitItems visit r.items >>= rowOf r) :=
  congrArg (visitItems visit r.items >>= ·) (funext fun changed => by cases changed <;> rfl)

/-- The row that comes back holds the elements after the visits, whether or not it is made. -/
theorem rowOf_image (r : SharedRow) (changed : Option (List SharedNode)) (p : Progress σ) : ∃ q rows,
    rowOf r changed p = .ok q { p with supply := { p.supply with rows } } ∧
      q.image = ⟨(), r.span, (changed.getD r.items).map Node.shape⟩ := by
  cases changed with
  | none => exact ⟨r, p.supply.rows, rfl, rfl⟩
  | some items => exact ⟨_, p.supply.rows + 1, rfl, rfl⟩

theorem rowOf_state (r : SharedRow) (changed : Option (List SharedNode)) (p : Progress σ) :
    (after (rowOf r changed p)).state = p.state := by
  obtain ⟨_, _, run, -⟩ := rowOf_image r changed p
  rw [run]
  rfl

theorem rebuild_state (n : SharedNode) (fields : Fields SharedNode SharedRow n.kind.slots) (p : Progress σ) :
    (after (rebuild n fields p)).state = p.state := by
  obtain ⟨_, _, run, state⟩ := rebuild_returns n fields p
  rw [run]
  exact state

/-- The node that comes back holds the new children, whether or not it is made, if the old ones count as the new ones
only where they are. -/
theorem rebuild_image {n : SharedNode} {fields : Fields SharedNode SharedRow n.kind.slots} {p : Progress σ}
    (h : fields = n.fields ∨ n.fields.same fields = false) (hn : n.handle.region ≠ p.supply.region) : ∃ m nodes,
    rebuild n fields p = .ok m
      { p with
        supply := { p.supply with nodes }
        stats := { p.stats with rebuilt := p.stats.rebuilt + if n.fields.same fields then 0 else 1 } } ∧
      m.shape = .mk () n.span n.flags n.kind n.payload (fields.map Node.shape Row.image) := by
  rcases h with rfl | new
  · refine ⟨n, p.supply.nodes, ?_, n.shape_eq⟩
    rw [rebuild_same n.fields.same_self, n.fields.same_self]
    rfl
  · refine ⟨p.renewed n fields, p.supply.nodes + 1, ?_, (p.renewed n fields).shape_eq⟩
    rw [rebuild_renewed new hn, new]
    rfl

/-! ### Plain descents -/

section Plain

variable (t : Transform σ) (limit budget : Nat) {n : SharedNode}

theorem Plain.descend_terminal (h : n.kind.isTerminal = true) :
    Plain.descend t limit (budget + 1) n = Pure.pure n.shape := by
  rw [Plain.descend, h]
  rfl

theorem Plain.descend_inner (h : n.kind.isTerminal = false) :
    Plain.descend t limit (budget + 1) n =
      (Plain.visitFields (Plain.visitWith t (Plain.descend t limit budget)) n.kind n.fields >>=
        fun fields => Pure.pure (.mk () n.span n.flags n.kind n.payload fields)) := by
  rw [Plain.descend, h]
  rfl

end Plain

/-! ### The sharing run keeps step -/

section Traversal

variable {region : Nat} {t : Transform σ} {limit : Nat}

section Visits

variable {visit : SharedNode → Run (Logged σ) (Option SharedNode)}
  {plainVisit : SharedNode → Plain.Run (Logged σ) (Option Shape)}
  (hs : ∀ n : SharedNode, n.Avoids region →
    Shares region (visit n) (· = some n) (fun a => ∀ m, a = some m → m.same n = false))
  (hm : ∀ n : SharedNode, n.Avoids region → Mirrors region (plainVisit n) (visit n) (Option.map Node.shape))

include hs hm

private theorem visitItems_mirrors (items : List SharedNode) (ha : ∀ n ∈ items, n.Avoids region) :
    Mirrors region (Plain.visitItems plainVisit items) (visitItems visit items)
      (fun changed => (changed.getD items).map Node.shape) := by
  induction items with
  | nil => exact .pure rfl
  | cons n rest ih =>
    obtain ⟨avoid, avoids⟩ := List.forall_mem_cons.mp ha
    have others := ih avoids
    -- where the list is kept, the answer is the node itself, not only one with the same handle
    have first := (hm n avoid).imp (T := fun a b => a.map Node.shape = b ∧
        (a = some n ∨ ∀ m, a = some m → m.same n = false)) fun p s a b q s' here run _ _ lawful image =>
      ⟨image, (hs n avoid p a q here.1 run lawful).imp And.left And.left⟩
    refine first.bind (fun _ => others.left.bind fun _ => .pure _) (fun _ => others.right.bind fun _ => .pure _) ?_
    rintro answer _ ⟨rfl, either⟩
    refine others.bind_pure fun changed shapes (images : (changed.getD rest).map Node.shape = shapes) => ?_
    show ((rejoin n rest answer changed).getD (n :: rest)).map Node.shape = _
    rw [rejoin_getD changed either, List.map_append, Option.toList_map, images]

private theorem visitRowWith_mirrors (r : SharedRow) (ha : r.Avoids region) :
    Mirrors region (Plain.visitRowWith plainVisit r) (visitRowWith visit r) Row.image := by
  have back (changed) : Backward (fun (p : Progress (Logged σ)) (_ : Logged σ) => p.Lawful region) (rowOf r changed) :=
    backward_of_state (rowOf_state r changed) fun _ _ _ state lawful c hc => lawful c (state ▸ hc)
  rw [visitRowWith_eq]
  refine (visitItems_mirrors hs hm r.items ha.2).bind back (fun _ => .pure _) ?_
  rintro changed _ rfl
  refine ⟨back changed, .pure _, fun p s here _ => ?_⟩
  obtain ⟨q, rows, run, image⟩ := rowOf_image r changed p
  rw [run]
  exact ⟨here, .ok image⟩

private theorem visitFields_mirrors (parent : Kind) {ss : List Slot} (fs : Fields SharedNode SharedRow ss)
    (ha : fs.Avoids region) :
    Mirrors region (Plain.visitFields plainVisit parent fs) (visitFields visit parent fs)
      (Fields.map Node.shape Row.image) := by
  rw [visitFields_eq, Plain.visitFields_eq]
  have self := fs.rel_of_map_eq (f := id) (g := id) rfl ha ha
  refine (Parallel.fields (f := Node.shape) (u := id) (g := Row.image) (v := id) ?_ ?_ parent self).mono ?_
  · intro n n' related
    cases related with
    | none => exact .pure rfl
    | some h =>
      obtain ⟨rfl, avoid, -⟩ := h
      exact (hm _ avoid).mono fun a b image => image.trans (congrFun Option.map_id b).symm
  · rintro r _ ⟨rfl, avoid, -⟩
    exact visitRowWith_mirrors hs hm r avoid
  · exact fun gs shapes images => images.trans shapes.map_id

end Visits

private theorem visitWith_mirrors {below : SharedNode → Run (Logged σ) SharedNode}
    {plainBelow : SharedNode → Plain.Run (Logged σ) Shape} (hb : ∀ n, Moves t.recorded limit (below n))
    (hm : ∀ n : SharedNode, n.Avoids region → Mirrors region (plainBelow n) (below n) Node.shape) (n : SharedNode) :
    Mirrors region (Plain.visitWith t.recorded plainBelow n) (visitWith t.recorded below n)
      (Option.map Node.shape) := by
  refine ⟨(visitWith_moves hb n).backward, fun _ _ lawful => lawful, ?_⟩
  rintro p _ ⟨hp, rfl⟩ lawful
  let q := p.heed n (t.recorded n p.state)
  cases h : (t n p.state.1).answer with
  | error message =>
    have asked : Plain.ask t.recorded n p.state = .error (.crashed message) q.state := by
      simp only [Plain.ask, Transform.recorded, h, q, Progress.heed]
    have plain : Plain.visitWith t.recorded plainBelow n p.state = _ := bind_of_error asked
    rw [visitWith_crashed h, plain]
    exact ⟨⟨hp, rfl⟩, .error _⟩
  | ok answer =>
    have asked : Plain.ask t.recorded n p.state = .ok answer q.state := by
      simp only [Plain.ask, Transform.recorded, h, q, Progress.heed]
    have plain : Plain.visitWith t.recorded plainBelow n p.state = _ := bind_of_ok asked
    cases answer with
    | none =>
      rw [visitWith_none h, plain]
      exact ⟨⟨hp, rfl⟩, .ok rfl⟩
    | some m =>
      rw [visitWith_some h] at lawful ⊢
      rw [plain]
      have called : t.call n p.state.1 ∈ q.state.2 := by simp [q, Transform.recorded_state]
      have later : Later q (after ((below m >>= fun m' => pure (some m')) q)) :=
        .of_reaches ((hb m).bind (fun _ => .pure _) q)
      have avoid : m.Avoids region := (lawful.of_later later _ called m h).1
      have mirrors := (hm m avoid).bind_pure (f := some) (g := some)
        (S := fun a b => a.map Node.shape = b) fun _ _ image => congrArg some image
      exact mirrors.run q q.state ⟨hp, rfl⟩ lawful

/-- The descent below a node that shares comes to the shape of what the plain descent comes to. -/
private theorem descend_mirrors (budget : Nat) (n : SharedNode) (ha : n.Avoids region) :
    Mirrors region (Plain.descend t.recorded limit budget n) (descend t.recorded limit budget n) Node.shape := by
  induction budget generalizing n with
  | zero => exact .throw _
  | succ budget ih =>
    refine ⟨(descend_moves _ n).backward, fun _ _ lawful => lawful, ?_⟩
    rintro p _ ⟨hp, rfl⟩ lawful
    cases hn : n.kind.isTerminal with
    | true =>
      rw [descend_terminal t.recorded limit budget p hn, Plain.descend_terminal t.recorded limit budget hn]
      exact ⟨⟨hp, rfl⟩, .ok rfl⟩
    | false =>
      rw [descend_inner t.recorded limit budget p hn] at lawful ⊢
      rw [Plain.descend_inner t.recorded limit budget hn]
      obtain ⟨hregion, avoid⟩ := Node.avoids_iff.mp ha
      have mirrors := visitFields_mirrors (visit_shares budget)
        (fun c _ => visitWith_mirrors (descend_moves budget) ih c) n.kind n.fields avoid
      have shares : Shares region (visitFields (visit t.recorded limit budget) n.kind n.fields) (· = n.fields)
          (fun gs => n.fields.same gs = false) :=
        visitFields_shares (visit_moves budget) (visit_shares budget) n.kind n.fields avoid
      have moves (fields) : Moves t.recorded limit (rebuild n fields) := rebuild_moves n fields
      have shared := mirrors.imp (T := fun fs b => Fields.map Node.shape Row.image fs = b ∧
        (fs = n.fields ∨ n.fields.same fs = false)) fun q s fs b q' s' here run _ _ lawful image =>
          ⟨image, (shares q fs q' here.1 run lawful).imp And.left And.left⟩
      refine (shared.bind (S := fun m s => m.shape = s) (fun fs => (moves fs).backward) (fun _ => .pure _) ?_).run
        (p.deepen (limit - budget)) p.state ⟨hp, rfl⟩ lawful
      rintro fs _ ⟨rfl, either⟩
      refine ⟨(moves fs).backward, .pure _, fun q s here _ => ?_⟩
      obtain ⟨m, nodes, run, shape⟩ := rebuild_image either (here.1 ▸ hregion)
      rw [run]
      exact ⟨here, .ok shape⟩

private theorem visit_mirrors (budget : Nat) (n : SharedNode) :
    Mirrors region (Plain.visit t.recorded limit budget n) (visit t.recorded limit budget n)
      (Option.map Node.shape) :=
  visitWith_mirrors (descend_moves budget) (descend_mirrors budget) n

/-- Every operation keeps step with the plain one. -/
theorem Op.run_mirrors (op : Op) (ha : op.Avoids region) :
    Mirrors region (Plain.perform.run t.recorded limit op) (op.run t.recorded limit limit) op.image := by
  cases op with
  | descend n => exact descend_mirrors limit n ha
  | visit n =>
    cases n with
    | none => exact .pure rfl
    | some n => exact visit_mirrors limit n
  | visitRow r => exact visitRowWith_mirrors (visit_shares limit) (fun n _ => visit_mirrors limit n) r ha

end Traversal

/-- A run refines the plain one. Both make the same calls of the transform, about the same nodes and in the same states,
and leave the caller in the same state. They fail with the same error, or the result of the plain run is the image of
the result of the other one. -/
theorem Runner.perform_refines_plain (r : Runner) (region : Nat) (t : Transform σ) (op : Op) (s : σ)
    (ha : op.Avoids region)
    (hl : ∀ c ∈ (r.perform region t.recorded op (s, [])).state.2, c.Lawful region) :
    Plain.perform t.recorded r.options.limit op (s, []) =
      ((r.perform region t.recorded op (s, [])).outcome.map op.image,
        (r.perform region t.recorded op (s, [])).state) := by
  let start : Progress (Logged σ) := .start region op.entry (s, [])
  rw [Runner.perform_eq] at hl ⊢
  rw [Runner.conclude_outcome, Runner.conclude_state]
  rw [Runner.conclude_state] at hl
  obtain ⟨⟨-, state⟩, ends⟩ := (op.run_mirrors ha).run start (s, []) ⟨rfl, rfl⟩ hl
  exact Prod.ext ends.eq_map state

/-- The plain visit of a twig in which a leaf is replaced: the transform is called twice. -/
theorem Runner.perform_refines_plain_grafted : Sample.grafted.state.1 = 2 ∧
    Plain.perform (Transform.swapping 1 (some (Sample.leaf ⟨2, 0⟩))).recorded 3 (.visit (some Sample.twig)) (0, []) =
      (Sample.grafted.outcome.map (Option.map Node.shape), Sample.grafted.state) := by
  have limit : Sample.runner.options.limit = 3 := by decide
  refine ⟨by decide, ?_⟩
  rw [← limit]
  exact Runner.perform_refines_plain Sample.runner 1 _ (.visit (some Sample.twig)) 0 Sample.grafted_avoids
    Sample.grafted_lawful

end Pass

end SharedTree
