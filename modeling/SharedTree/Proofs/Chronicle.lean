import SharedTree.Proofs.Moment

/-!
# Chronicles

The moments of a run are listed as the computations of the run are put together. A relation between the nodes to
which a computation turns, the computation itself and the moments that are listed for it is a `Chronicle` if it is kept
where two computations follow each other.

* `Chronicle.Level` says what is asked of a chronicle at a level: it holds of the visits of nodes, and it passes from
  the elements of a row to the row.
* `Chronicle.visitFields`: then it holds of the visits of all slots of a node.
-/

namespace SharedTree.Pass

variable {σ : Type}

/-- What is listed behind a computation is nothing if nothing is listed for what follows. -/
@[simp] theorem following_nil {ε π α γ : Type} (result : EStateM.Result ε π α) :
    (following result fun _ => ([] : List γ)) = [] := by
  cases result <;> rfl

/-- A relation between nodes, a computation and the moments that are listed for it, which holds of computations that
follow each other if it holds of both. -/
structure Chronicle (K : {α : Type} → List SharedNode → Run σ α → (Progress σ → List (Moment σ)) → Prop) : Prop where
  pure {α : Type} (a : α) : K [] (pure a) fun _ => []
  bind {α β : Type} {ns ms : List SharedNode} {x : Run σ α} {f : α → Run σ β}
    {listed later : Progress σ → List (Moment σ)} (hx : K ns x listed) (hf : ∀ a, K ms (f a) later) :
    K (ns ++ ms) (x >>= f) fun p => listed p ++ following (x p) later

namespace Chronicle

variable {K : {α : Type} → List SharedNode → Run σ α → (Progress σ → List (Moment σ)) → Prop}
  {visit : SharedNode → Run σ (Option SharedNode)} {above : List SharedNode}
  {inside : Place → SharedNode → Progress σ → List (Moment σ)} {parent : Kind}

/-- What follows without a moment of its own does not matter. -/
theorem bind_pure (chr : Chronicle K) {α β : Type} (ns : List SharedNode) {x : Run σ α} {f : α → β}
    {listed : Progress σ → List (Moment σ)} (hx : K ns x listed) : K ns (x >>= fun a => Pure.pure (f a)) listed := by
  simpa only [following_nil, List.append_nil] using chr.bind hx fun a => chr.pure (f a)

/-- The relation holds of the visits of elements, and if it holds of those of a row it holds of the visit of the row. -/
structure Rows (K : {α : Type} → List SharedNode → Run σ α → (Progress σ → List (Moment σ)) → Prop)
    (visit : SharedNode → Run σ (Option SharedNode)) (above : List SharedNode)
    (inside : Place → SharedNode → Progress σ → List (Moment σ)) : Prop where
  element (n : SharedNode) : K [n] (visit n) (inside .element n)
  row (place : Place) (r : SharedRow)
    (items : K r.items (Pass.visitItems visit r.items) (itemMoments visit inside r.items)) :
    K r.items (Pass.visitRowWith visit r) (rowMoments visit above inside place r)

/-- The relation holds of what is visited in the slots of a node as well. Where the slot must be filled it takes into
account that the node must not be removed. -/
structure Level (K : {α : Type} → List SharedNode → Run σ α → (Progress σ → List (Moment σ)) → Prop)
    (visit : SharedNode → Run σ (Option SharedNode)) (above : List SharedNode)
    (inside : Place → SharedNode → Progress σ → List (Moment σ)) (parent : Kind) : Prop
    extends Rows K visit above inside where
  optional (s : Slot) (n : SharedNode) (h : s.arity = .opt) : K [n] (visit n) (inside (.slot s) n)
  required (s : Slot) (n : SharedNode) (h : s.arity = .one) :
    K [n] (Pass.visitChild visit parent s.label (.one n)) (inside (.slot s) n)

variable (chr : Chronicle K)

include chr

theorem visitItems (hv : ∀ n, K [n] (visit n) (inside .element n)) (items : List SharedNode) :
    K items (Pass.visitItems visit items) (itemMoments visit inside items) := by
  induction items with
  | nil => exact chr.pure none
  | cons n rest ih => exact chr.bind (hv n) fun answer => chr.bind_pure rest ih

theorem visitRowWith (rows : Rows K visit above inside) (place : Place) (r : SharedRow) :
    K r.items (Pass.visitRowWith visit r) (rowMoments visit above inside place r) :=
  rows.row place r (chr.visitItems rows.element r.items)

variable (level : Level K visit above inside parent)

include level

theorem visitChild (s : Slot) (c : Child SharedNode SharedRow s.arity) :
    K c.nodes (Pass.visitChild visit parent s.label c) (childMoments visit above inside s c) := by
  obtain ⟨name, arity, label⟩ := s
  cases c with
  | one n => exact level.required ⟨name, .one, label⟩ n rfl
  | opt n =>
    cases n with
    | none => exact chr.pure _
    | some n => exact chr.bind_pure [n] (level.optional ⟨name, .opt, label⟩ n rfl)
  | row r => exact chr.bind_pure r.items (chr.visitRowWith level.toRows _ r)
  | optRow r =>
    cases r with
    | none => exact chr.pure _
    | some r => exact chr.bind_pure r.items (chr.visitRowWith level.toRows _ r)

/-- A chronicle that holds of the visits of nodes holds of the visits of all slots of a node. -/
theorem visitFields {ss : List Slot} (fs : Fields SharedNode SharedRow ss) :
    K fs.nodes (Pass.visitFields visit parent fs) (fieldMoments visit above inside parent fs) := by
  induction fs with
  | nil => exact chr.pure _
  | @cons s ss c rest ih => exact chr.bind (chr.visitChild level s c) fun d => chr.bind_pure rest.nodes ih

end Chronicle

end SharedTree.Pass
