import SharedTree.Proofs.Step

/-!
# The moments of a run

A run is made of operations inside operations. A `Moment` is the beginning of one of them: what is to be done, where
in the tree, under which open nodes, and how far the run has come. `Op.moments` lists the moments of a run in order.

* `Nests` relates a moment to those that begin directly inside it. It says where the operand of the inner operation
  comes from: it is an answer of the transform, the child in a slot, or an element of a row.
* `Op.within_of_mem_moments`: every moment of a run lies inside the first one. What passes from a moment to those
  directly inside it therefore holds of every moment of a run.
-/

namespace SharedTree

variable {α ρ : Type}

/-- A child that is held in a slot. -/
inductive Fields.Holds : {ss : List Slot} → Fields α ρ ss → (s : Slot) → Child α ρ s.arity → Prop
  | head {s : Slot} {ss : List Slot} (c : Child α ρ s.arity) (rest : Fields α ρ ss) : Holds (.cons c rest) s c
  | tail {s r : Slot} {ss : List Slot} {c : Child α ρ s.arity} {rest : Fields α ρ ss} (d : Child α ρ r.arity)
      (h : Holds rest s c) : Holds (.cons d rest) s c

namespace Pass

variable {σ : Type}

/-- Where in the tree something is: at the root of the run, in a slot of the innermost open node, or in a row. -/
inductive Place where
  | root
  | slot (s : Slot)
  | element

/-- The beginning of an operation in a run. -/
structure Moment (σ : Type) where
  /-- The nodes whose children are being visited, the innermost first. -/
  above : List SharedNode
  place : Place
  op : Op
  progress : Progress σ

/-- The operation of a moment, carried out with the levels that are left under the limit. -/
def Moment.run (t : Transform σ) (limit : Nat) (m : Moment σ) : EStateM.Result Halt (Progress σ) m.op.Result :=
  m.op.run t limit (limit - m.above.length) m.progress

/-- What a child gives to do, unless it is absent. -/
def childOp? : {a : Arity} → Child SharedNode SharedRow a → Option Op
  | _, .one n => some (.visit (some n))
  | _, .opt n => n.map fun n => .visit (some n)
  | _, .row r => some (.visitRow r)
  | _, .optRow r => r.map .visitRow

/-! ### Listing the moments -/

/-- What is listed behind a computation if it succeeds. -/
def following {ε π α γ : Type} (result : EStateM.Result ε π α) (later : π → List γ) : List γ :=
  match result with
  | .ok _ p => later p
  | .error _ _ => []

section Lists

variable (visit : SharedNode → Run σ (Option SharedNode)) (above : List SharedNode)
  (inside : Place → SharedNode → Progress σ → List (Moment σ))

/-- The moments of the visits of the elements of a row, where `inside` lists those of one visit. -/
def itemMoments : List SharedNode → Progress σ → List (Moment σ)
  | [], _ => []
  | n :: rest, p => inside .element n p ++ following (visit n p) (itemMoments rest)

def rowMoments (place : Place) (r : SharedRow) (p : Progress σ) : List (Moment σ) :=
  ⟨above, place, .visitRow r, p⟩ :: itemMoments visit inside r.items p

def childMoments (s : Slot) : {a : Arity} → Child SharedNode SharedRow a → Progress σ → List (Moment σ)
  | _, .one n, p => inside (.slot s) n p
  | _, .opt none, _ => []
  | _, .opt (some n), p => inside (.slot s) n p
  | _, .row r, p => rowMoments visit above inside (.slot s) r p
  | _, .optRow none, _ => []
  | _, .optRow (some r), p => rowMoments visit above inside (.slot s) r p

def fieldMoments (parent : Kind) :
    {ss : List Slot} → Fields SharedNode SharedRow ss → Progress σ → List (Moment σ)
  | _, .nil, _ => []
  | _, @Fields.cons _ _ s _ c rest, p =>
    childMoments visit above inside s c p ++
      following (visitChild visit parent s.label c p) (fieldMoments parent rest)

/-- The moments of the visit of a node, where `below` lists those of the descent below the answer. -/
def visitMoments (t : Transform σ) (below : Place → SharedNode → Progress σ → List (Moment σ)) (place : Place)
    (n : SharedNode) (p : Progress σ) : List (Moment σ) :=
  ⟨above, place, .visit (some n), p⟩ ::
    match (t n p.state).answer with
    | .ok (some m) => below place m (p.heed n (t n p.state))
    | _ => []

def descendMoments (t : Transform σ) (limit : Nat) :
    Nat → List SharedNode → Place → SharedNode → Progress σ → List (Moment σ)
  | 0, above, place, n, p => [⟨above, place, .descend n, p⟩]
  | budget + 1, above, place, n, p =>
    ⟨above, place, .descend n, p⟩ ::
      if n.kind.isTerminal then []
      else
        fieldMoments (visitWith t (descend t limit budget)) (n :: above)
          (visitMoments (n :: above) t (descendMoments t limit budget (n :: above))) n.kind n.fields
          (p.deepen (limit - budget))

end Lists

section Visit

variable {above : List SharedNode} {t : Transform σ} {below : Place → SharedNode → Progress σ → List (Moment σ)}
  {n : SharedNode} {p : Progress σ} (place : Place)

/-- The visit of a node goes on below the answer. -/
theorem visitMoments_answered {m : SharedNode} (h : (t n p.state).answer = .ok (some m)) :
    visitMoments above t below place n p =
      ⟨above, place, .visit (some n), p⟩ :: below place m (p.heed n (t n p.state)) := by
  rw [visitMoments, h]

/-- Without an answer to go on below, the visit of a node has no moment but its beginning. -/
theorem visitMoments_alone (h : ∀ m, (t n p.state).answer ≠ .ok (some m)) :
    visitMoments above t below place n p = [⟨above, place, .visit (some n), p⟩] := by
  unfold visitMoments
  split
  · exact absurd ‹_› (h _)
  · rfl

theorem mem_visitMoments {m : Moment σ} (hm : m ∈ visitMoments above t below place n p) :
    m = ⟨above, place, .visit (some n), p⟩ ∨
      ∃ k, (t n p.state).answer = .ok (some k) ∧ m ∈ below place k (p.heed n (t n p.state)) := by
  by_cases h : ∃ k, (t n p.state).answer = .ok (some k)
  · obtain ⟨k, hk⟩ := h
    rw [visitMoments_answered place hk] at hm
    exact (List.mem_cons.mp hm).imp_right fun deeper => ⟨k, hk, deeper⟩
  · rw [visitMoments_alone place fun k hk => h ⟨k, hk⟩] at hm
    exact .inl (List.mem_singleton.mp hm)

end Visit

/-- The moments of a run with a limit, in order. -/
def Op.moments (t : Transform σ) (limit : Nat) : Op → Progress σ → List (Moment σ)
  | .descend n, p => descendMoments t limit limit [] .root n p
  | .visit none, p => [⟨[], .root, .visit none, p⟩]
  | .visit (some n), p => visitMoments [] t (descendMoments t limit limit []) .root n p
  | .visitRow r, p =>
    rowMoments (visitWith t (Pass.descend t limit limit)) []
      (visitMoments [] t (descendMoments t limit limit [])) .root r p

/-- The moments of the run in which a runner performs an operation. -/
def Runner.moments (r : Runner) (region : Nat) (t : Transform σ) (op : Op) (s : σ) : List (Moment σ) :=
  op.moments t r.options.limit (.start region op.entry s)

/-! ### Moments inside moments -/

/-- The second moment begins directly inside the first one. -/
inductive Nests (t : Transform σ) (limit : Nat) : Moment σ → Moment σ → Prop
  /-- The visit of a node goes on below the answer. -/
  | answer {above : List SharedNode} {place : Place} {n m : SharedNode} {p : Progress σ}
      (h : (t n p.state).answer = .ok (some m)) :
      Nests t limit ⟨above, place, .visit (some n), p⟩ ⟨above, place, .descend m, p.heed n (t n p.state)⟩
  /-- The descent below a node turns to what is in a slot. -/
  | child {above : List SharedNode} {place : Place} {n : SharedNode} {p q : Progress σ} {s : Slot}
      {c : Child SharedNode SharedRow s.arity} {op : Op} (room : above.length < limit)
      (inner : n.kind.isTerminal = false) (held : n.fields.Holds s c) (turn : childOp? c = some op)
      (reach : Reaches t limit (p.deepen (above.length + 1)) q)
      (back : Reaches t limit (after (Moment.run t limit ⟨n :: above, .slot s, op, q⟩))
        (after (Moment.run t limit ⟨above, place, .descend n, p⟩))) :
      Nests t limit ⟨above, place, .descend n, p⟩ ⟨n :: above, .slot s, op, q⟩
  /-- The visit of a row turns to an element. -/
  | element {above : List SharedNode} {place : Place} {r : SharedRow} {n : SharedNode} {p q : Progress σ}
      (mem : n ∈ r.items) (reach : Reaches t limit p q)
      (back : Reaches t limit (after (Moment.run t limit ⟨above, .element, .visit (some n), q⟩))
        (after (Moment.run t limit ⟨above, place, .visitRow r, p⟩))) :
      Nests t limit ⟨above, place, .visitRow r, p⟩ ⟨above, .element, .visit (some n), q⟩

/-- The second moment begins somewhere inside the first one. -/
abbrev Within (t : Transform σ) (limit : Nat) : Moment σ → Moment σ → Prop :=
  Relation.ReflTransGen (Nests t limit)

section Within

variable {t : Transform σ} {limit : Nat}

section Lists

variable {visit : SharedNode → Run σ (Option SharedNode)} {above : List SharedNode}
  {inside : Place → SharedNode → Progress σ → List (Moment σ)}
  (hv : ∀ n, Moves t limit (visit n))
  (hrun : ∀ place n p, Moment.run t limit ⟨above, place, .visit (some n), p⟩ = visit n p)
  (hin : ∀ place n p, ∀ m ∈ inside place n p, Within t limit ⟨above, place, .visit (some n), p⟩ m)

include hv hrun hin

private theorem within_of_mem_itemMoments {r : SharedRow} {place : Place} {p₀ : Progress σ}
    (items : List SharedNode) (hsub : ∀ n ∈ items, n ∈ r.items) (p : Progress σ) (hreach : Reaches t limit p₀ p)
    (hback : Reaches t limit (after (visitItems visit items p))
      (after (Moment.run t limit ⟨above, place, .visitRow r, p₀⟩))) :
    ∀ m ∈ itemMoments visit inside items p, Within t limit ⟨above, place, .visitRow r, p₀⟩ m := by
  induction items generalizing p with
  | nil => intro m hm; exact absurd hm (by simp [itemMoments])
  | cons n rest ih =>
    intro m hm
    have hrest : ∀ answer, Moves t limit
        (visitItems visit rest >>= fun changed => pure (rejoin n rest answer changed)) :=
      fun answer => (visitItems_moves hv rest).bind fun _ => .pure _
    simp only [itemMoments, List.mem_append] at hm
    rcases hm with hm | hm
    · refine .head (.element (hsub n (by simp)) hreach ?_) (hin .element n p m hm)
      rw [hrun]
      exact (Moves.after_bind hrest (visit n) p).trans hback
    · cases h : visit n p with
      | error e q => rw [h] at hm; exact absurd hm (by simp [following])
      | ok answer q =>
        rw [h] at hm
        have hq : Reaches t limit p q := by
          have := hv n p
          rwa [h] at this
        refine ih (fun n' hn' => hsub n' (by simp [hn'])) q (hreach.trans hq) ?_ m hm
        refine Relation.ReflTransGen.trans ?_ hback
        show Reaches t limit _ (after ((visit n >>= _) p))
        rw [bind_of_ok h]
        exact Moves.after_bind (fun _ => .pure _) (visitItems visit rest) q

variable (hrow : ∀ place r p, Moment.run t limit ⟨above, place, .visitRow r, p⟩ = visitRowWith visit r p)

include hrow

private theorem within_of_mem_rowMoments (place : Place) (r : SharedRow) (p : Progress σ) :
    ∀ m ∈ rowMoments visit above inside place r p, Within t limit ⟨above, place, .visitRow r, p⟩ m := by
  intro m hm
  simp only [rowMoments, List.mem_cons] at hm
  rcases hm with rfl | hm
  · exact .refl
  · refine within_of_mem_itemMoments hv hrun hin r.items (fun _ h => h) p .refl ?_ m hm
    rw [hrow]
    refine Moves.after_bind (fun changed => ?_) (visitItems visit r.items) p
    cases changed with
    | none => exact .pure _
    | some items => exact fun p => .single (.rowMade items r.span)

/-- Each moment of a child lies inside the one in which the pass turns to the child. -/
private theorem within_of_mem_childMoments (s : Slot) (parent : Kind) (label : String) {a : Arity}
    (c : Child SharedNode SharedRow a) (p : Progress σ) :
    ∀ m ∈ childMoments visit above inside s c p, ∃ op, childOp? c = some op ∧
      Within t limit ⟨above, .slot s, op, p⟩ m ∧
        Reaches t limit (after (Moment.run t limit ⟨above, .slot s, op, p⟩))
          (after (visitChild visit parent label c p)) := by
  intro m hm
  cases c with
  | one n =>
    refine ⟨_, rfl, hin _ n p m hm, ?_⟩
    rw [hrun]
    refine Moves.after_bind (fun answer => ?_) (visit n) p
    cases answer with
    | none => exact .fail _
    | some m => exact .pure _
  | opt n =>
    cases n with
    | none => exact absurd hm (by simp [childMoments])
    | some n =>
      refine ⟨_, rfl, hin _ n p m hm, ?_⟩
      rw [hrun]
      exact Moves.after_bind (fun _ => .pure _) (visit n) p
  | row r =>
    refine ⟨_, rfl, within_of_mem_rowMoments hv hrun hin hrow _ r p m hm, ?_⟩
    rw [hrow]
    exact Moves.after_bind (fun _ => .pure _) (visitRowWith visit r) p
  | optRow r =>
    cases r with
    | none => exact absurd hm (by simp [childMoments])
    | some r =>
      refine ⟨_, rfl, within_of_mem_rowMoments hv hrun hin hrow _ r p m hm, ?_⟩
      rw [hrow]
      exact Moves.after_bind (fun _ => .pure _) (visitRowWith visit r) p

end Lists

private theorem within_of_mem_fieldMoments {visit : SharedNode → Run σ (Option SharedNode)}
    {above : List SharedNode} {n : SharedNode} {inside : Place → SharedNode → Progress σ → List (Moment σ)}
    (hv : ∀ n, Moves t limit (visit n))
    (hrun : ∀ place c p, Moment.run t limit ⟨n :: above, place, .visit (some c), p⟩ = visit c p)
    (hin : ∀ place c p, ∀ m ∈ inside place c p, Within t limit ⟨n :: above, place, .visit (some c), p⟩ m)
    (hrow : ∀ place r p, Moment.run t limit ⟨n :: above, place, .visitRow r, p⟩ = visitRowWith visit r p)
    {place : Place} {p₀ : Progress σ} (room : above.length < limit) (inner : n.kind.isTerminal = false)
    {ss : List Slot} (fs : Fields SharedNode SharedRow ss) (hsub : ∀ s c, fs.Holds s c → n.fields.Holds s c)
    (p : Progress σ) (hreach : Reaches t limit (p₀.deepen (above.length + 1)) p)
    (hback : Reaches t limit (after (visitFields visit n.kind fs p))
      (after (Moment.run t limit ⟨above, place, .descend n, p₀⟩))) :
    ∀ m ∈ fieldMoments visit (n :: above) inside n.kind fs p,
      Within t limit ⟨above, place, .descend n, p₀⟩ m := by
  induction fs generalizing p with
  | nil => intro m hm; exact absurd hm (by simp [fieldMoments])
  | @cons s ss c rest ih =>
    intro m hm
    have hrest : ∀ c' : Child SharedNode SharedRow s.arity, Moves t limit
        (visitFields visit n.kind rest >>= fun rest' => pure (Fields.cons c' rest')) :=
      fun c' => (visitFields_moves hv n.kind rest).bind fun _ => .pure _
    simp only [fieldMoments, List.mem_append] at hm
    rcases hm with hm | hm
    · obtain ⟨op, turn, hwithin, hend⟩ :=
        within_of_mem_childMoments hv hrun hin hrow s n.kind s.label c p m hm
      refine .head (.child room inner (hsub s c (.head c rest)) turn hreach ?_) hwithin
      exact hend.trans ((Moves.after_bind hrest (visitChild visit n.kind s.label c) p).trans hback)
    · cases h : visitChild visit n.kind s.label c p with
      | error e q => rw [h] at hm; exact absurd hm (by simp [following])
      | ok c' q =>
        rw [h] at hm
        have hq : Reaches t limit p q := by
          have := visitChild_moves hv n.kind s.label c p
          rwa [h] at this
        refine ih (fun s' d hd => hsub s' d (.tail c hd)) q (hreach.trans hq) ?_ m hm
        refine Relation.ReflTransGen.trans ?_ hback
        show Reaches t limit _ (after ((visitChild visit n.kind s.label c >>= _) p))
        rw [bind_of_ok h]
        exact Moves.after_bind (fun _ => .pure _) (visitFields visit n.kind rest) q

private theorem within_of_mem_visitMoments {above : List SharedNode}
    {below : Place → SharedNode → Progress σ → List (Moment σ)}
    (hb : ∀ place n p, ∀ m ∈ below place n p, Within t limit ⟨above, place, .descend n, p⟩ m) (place : Place)
    (n : SharedNode) (p : Progress σ) :
    ∀ m ∈ visitMoments above t below place n p, Within t limit ⟨above, place, .visit (some n), p⟩ m := by
  intro m hm
  rcases mem_visitMoments place hm with rfl | ⟨k, h, deeper⟩
  · exact .refl
  · exact .head (.answer h) (hb place k _ m deeper)

private theorem within_of_mem_descendMoments {budget : Nat} {above : List SharedNode}
    (h : above.length + budget = limit) (place : Place) (n : SharedNode) (p : Progress σ) :
    ∀ m ∈ descendMoments t limit budget above place n p, Within t limit ⟨above, place, .descend n, p⟩ m := by
  induction budget generalizing above place n p with
  | zero =>
    intro m hm
    simp only [descendMoments, List.mem_singleton] at hm
    subst hm
    exact .refl
  | succ budget ih =>
    intro m hm
    simp only [descendMoments, List.mem_cons] at hm
    rcases hm with rfl | hm
    · exact .refl
    · cases hn : n.kind.isTerminal with
      | true => simp [hn] at hm
      | false =>
        simp only [hn, Bool.false_eq_true, if_false] at hm
        have length : (n :: above).length + budget = limit := by
          rw [List.length_cons]
          omega
        have left : limit - (n :: above).length = budget := by omega
        have runVisit : ∀ place c p, Moment.run t limit ⟨n :: above, place, .visit (some c), p⟩ =
            visit t limit budget c p := by
          intro place c p
          simp only [Moment.run, left]
          rfl
        have runRow : ∀ place r p, Moment.run t limit ⟨n :: above, place, .visitRow r, p⟩ =
            visitRow t limit budget r p := by
          intro place r p
          simp only [Moment.run, left]
          rfl
        have runDescend : Moment.run t limit ⟨above, place, .descend n, p⟩ = descend t limit (budget + 1) n p := by
          simp only [Moment.run, show limit - above.length = budget + 1 by omega]
          rfl
        have inside : ∀ place c p,
            ∀ m ∈ visitMoments (n :: above) t (descendMoments t limit budget (n :: above)) place c p,
              Within t limit ⟨n :: above, place, .visit (some c), p⟩ m :=
          within_of_mem_visitMoments (ih length)
        -- the level that is opened is the one above all that are open already
        have level : limit - budget = above.length + 1 := by omega
        refine within_of_mem_fieldMoments (visit_moves budget) runVisit inside runRow (by omega) hn n.fields
          (fun _ _ h => h) (p.deepen (limit - budget)) ?_ ?_ m hm
        · rw [level]
        · rw [runDescend, descend_inner t limit budget p hn]
          exact Moves.after_bind (rebuild_moves n) _ _

/-- Every moment of a run lies inside the first one, in which the operation itself begins. -/
theorem Op.within_of_mem_moments (op : Op) (p : Progress σ) :
    ∀ m ∈ op.moments t limit p, Within t limit ⟨[], .root, op, p⟩ m := by
  have hdescend : ∀ place n p, ∀ m ∈ descendMoments t limit limit [] place n p,
      Within t limit ⟨[], place, .descend n, p⟩ m :=
    within_of_mem_descendMoments (by simp)
  cases op with
  | descend n => exact hdescend .root n p
  | visit n =>
    cases n with
    | none =>
      intro m hm
      simp only [Op.moments, List.mem_singleton] at hm
      subst hm
      exact .refl
    | some n => exact within_of_mem_visitMoments hdescend .root n p
  | visitRow r =>
    exact within_of_mem_rowMoments (visit_moves limit) (fun _ _ _ => rfl)
      (within_of_mem_visitMoments hdescend) (fun _ _ _ => rfl) .root r p

variable {m m' : Moment σ}

theorem Nests.reaches (h : Nests t limit m m') : Reaches t limit m.progress m'.progress := by
  cases h with
  | @answer _ _ n => exact .single (.asked n)
  | child room _ _ _ reach _ => exact .head (.deepened _ (by omega)) reach
  | element _ reach _ => exact reach

theorem Nests.back (h : Nests t limit m m') : Reaches t limit (after (m'.run t limit)) (after (m.run t limit)) := by
  cases h with
  | @answer above place n n' p h =>
    show Reaches t limit _ (after (visitWith t (descend t limit (limit - above.length)) n p))
    rw [visitWith_some h]
    exact Moves.after_bind (fun _ => .pure _) (descend t limit (limit - above.length) n') _
  | child _ _ _ _ _ back => exact back
  | element _ _ back => exact back

theorem Within.reaches (h : Within t limit m m') : Reaches t limit m.progress m'.progress := by
  induction h with
  | refl => exact .refl
  | tail _ hn ih => exact ih.trans hn.reaches

theorem Within.back (h : Within t limit m m') :
    Reaches t limit (after (m'.run t limit)) (after (m.run t limit)) := by
  induction h with
  | refl => exact .refl
  | tail _ hn ih => exact hn.back.trans ih

end Within

end Pass

end SharedTree
