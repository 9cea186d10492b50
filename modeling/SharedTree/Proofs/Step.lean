import SharedTree.Proofs.Congruence
import Mathlib.Logic.Relation

/-!
# The steps of a run

A run goes on by four kinds of steps: the transform is asked about a node and its answer is counted, a level is
opened, a row is made, and a node is given new children.

* The equations at the beginning say what each step does, so that the definitions of the passes need not be opened
  elsewhere.
* `Step` is the relation of a progress to the next one and `Reaches` that to any later one. `Op.run_moves` says that
  a run only moves along it, whether or not it succeeds.
-/

namespace SharedTree

theorem Node.same_self (n : SharedNode) : n.same n = true := by simp [Node.same]

theorem Row.same_self (r : SharedRow) : r.same r = true := by simp [Row.same]

namespace Pass

variable {σ α β : Type}

section Bind

variable {ε π : Type} {x : EStateM ε π α} {f : α → EStateM ε π β} {p q : π}

theorem bind_of_ok {a : α} (h : x p = .ok a q) : (x >>= f) p = f a q := by
  show EStateM.bind x f p = _
  rw [EStateM.bind, h]

theorem bind_of_error {e : ε} (h : x p = .error e q) : (x >>= f) p = .error e q := by
  show EStateM.bind x f p = _
  rw [EStateM.bind, h]

/-- What follows a computation depends on no more than what the computation comes to. -/
theorem bind_congr_left {y : EStateM ε π α} (h : x p = y q) : (x >>= f) p = (y >>= f) q := by
  show EStateM.bind x f p = EStateM.bind y f q
  rw [EStateM.bind, EStateM.bind, h]

/-- Two computations in a row succeed only if both do. -/
theorem bind_eq_ok {b : β} (h : (x >>= f) p = .ok b q) : ∃ a r, x p = .ok a r ∧ f a r = .ok b q := by
  cases hx : x p with
  | ok a r => exact ⟨a, r, rfl, by rwa [bind_of_ok hx] at h⟩
  | error e r => rw [bind_of_error hx] at h; cases h

end Bind

/-! ### Asking the transform -/

/-- The counters after an answer about a node. -/
def Stats.heed (s : Stats) (n : SharedNode) : Except String (Option SharedNode) → Stats
  | .error _ => { s with visited := s.visited + 1 }
  | .ok none => { s with visited := s.visited + 1, removed := s.removed + 1 }
  | .ok (some m) =>
    { s with visited := s.visited + 1, replaced := if m.same n then s.replaced else s.replaced + 1 }

theorem Stats.heed_rebuilt (s : Stats) (n : SharedNode) (answer : Except String (Option SharedNode)) :
    (s.heed n answer).rebuilt = s.rebuilt := by
  rcases answer with message | _ | m <;> rfl

def answerEvents (n : SharedNode) : Except String (Option SharedNode) → List Event
  | .error _ => []
  | .ok none => [.removed n.kind n.span.pos]
  | .ok (some m) => if m.same n then [] else [.replaced n.kind m.kind n.span.pos]

/-- The progress after the transform has replied to the question about a node. -/
def Progress.heed (p : Progress σ) (n : SharedNode) (reply : Reply σ) : Progress σ :=
  { p with
    state := reply.state
    stats := p.stats.heed n reply.answer
    trace := answerEvents n reply.answer ++ (reply.events.reverse ++ p.trace) }

section Visit

variable {t : Transform σ} {below : SharedNode → Run σ SharedNode} {n : SharedNode} {p : Progress σ}

private def Progress.asked (p : Progress σ) (reply : Reply σ) : Progress σ :=
  { p with
    state := reply.state
    stats := { p.stats with visited := p.stats.visited + 1 }
    trace := reply.events.reverse ++ p.trace }

private theorem ask_eq : ask t n p =
    (match (t n p.state).answer with
      | .ok answer => (pure answer : Run σ (Option SharedNode))
      | .error message => throw (Halt.crashed message)) (p.asked (t n p.state)) := rfl

private theorem ask_of_ok {answer : Option SharedNode} (h : (t n p.state).answer = .ok answer) :
    ask t n p = .ok answer (p.asked (t n p.state)) := by
  rw [ask_eq, h]
  rfl

/-- If the transform breaks down the visit stops with its message. -/
theorem visitWith_crashed {message : String} (h : (t n p.state).answer = .error message) :
    visitWith t below n p = .error (.crashed message) (p.heed n (t n p.state)) := by
  have asked : ask t n p = .error (.crashed message) (p.asked (t n p.state)) := by
    rw [ask_eq, h]
    rfl
  unfold visitWith
  rw [bind_of_error asked]
  simp only [Progress.asked, Progress.heed, Stats.heed, answerEvents, h]
  rfl

/-- If the transform removes the node nothing more is done about it. -/
theorem visitWith_none (h : (t n p.state).answer = .ok none) :
    visitWith t below n p = .ok none (p.heed n (t n p.state)) := by
  unfold visitWith
  rw [bind_of_ok (ask_of_ok h)]
  simp only [Progress.asked, Progress.heed, Stats.heed, answerEvents, h]
  rfl

/-- If the transform answers with a node the visit goes on below this node. -/
theorem visitWith_some {m : SharedNode} (h : (t n p.state).answer = .ok (some m)) :
    visitWith t below n p = (below m >>= fun m' => pure (some m')) (p.heed n (t n p.state)) := by
  unfold visitWith
  rw [bind_of_ok (ask_of_ok h)]
  simp only [Progress.asked, Progress.heed, Stats.heed, answerEvents, h]
  by_cases hs : m.same n = true
  · simp only [hs, if_true]
    rfl
  · simp only [hs]
    rfl

end Visit

/-! ### Visiting a row or a required child -/

section Row

variable {visit : SharedNode → Run σ (Option SharedNode)} {r : SharedRow} {p q : Progress σ}

theorem visitRowWith_unchanged (h : visitItems visit r.items p = .ok none q) : visitRowWith visit r p = .ok r q := by
  unfold visitRowWith
  rw [bind_of_ok h]
  rfl

theorem visitRowWith_changed {items : List SharedNode} (h : visitItems visit r.items p = .ok (some items) q) :
    visitRowWith visit r p = .ok ⟨⟨q.supply.region, q.supply.rows⟩, r.span, items⟩
      { q with supply := { q.supply with rows := q.supply.rows + 1 } } := by
  unfold visitRowWith
  rw [bind_of_ok h]
  rfl

theorem visitRowWith_error {e : Halt} (h : visitItems visit r.items p = .error e q) :
    visitRowWith visit r p = .error e q := by
  unfold visitRowWith
  rw [bind_of_error h]

variable {n : SharedNode} {parent : Kind} {label : String}

theorem visitChild_one {m : SharedNode} (h : visit n p = .ok (some m) q) :
    visitChild visit parent label (.one n) p = .ok (.one m) q := bind_of_ok h

theorem visitChild_one_removed (h : visit n p = .ok none q) :
    visitChild visit parent label (.one n) p = .error (.failed (.requiredRemoved parent label)) q := bind_of_ok h

theorem visitChild_one_error {e : Halt} (h : visit n p = .error e q) :
    visitChild visit parent label (.one n) p = .error e q := bind_of_error h

end Row

/-! ### Opening a level -/

/-- The progress after a level has been opened as the one of number `d`. -/
def Progress.deepen (p : Progress σ) (d : Nat) : Progress σ :=
  { p with stats := { p.stats with deepest := max p.stats.deepest d } }

section Descend

variable (t : Transform σ) (limit budget : Nat) {n : SharedNode} (p : Progress σ)

/-- A descent to a terminal node opens a level and makes no visit. -/
theorem descend_terminal (h : n.kind.isTerminal = true) :
    descend t limit (budget + 1) n p = .ok n (p.deepen (limit - budget)) := by
  unfold descend
  rw [h]
  rfl

/-- A descent to another node opens a level, visits the slots and makes the node anew if need be. -/
theorem descend_inner (h : n.kind.isTerminal = false) :
    descend t limit (budget + 1) n p =
      (visitFields (visitWith t (descend t limit budget)) n.kind n.fields >>= rebuild n)
        (p.deepen (limit - budget)) := by
  rw [descend, h]
  rfl

end Descend

/-! ### Giving a node new children -/

section Rebuild

variable {n : SharedNode} {fields : Fields SharedNode SharedRow n.kind.slots} {p : Progress σ}

/-- The node that takes the place of another one when its children have changed. -/
def Progress.renewed (p : Progress σ) (n : SharedNode) (fields : Fields SharedNode SharedRow n.kind.slots) :
    SharedNode :=
  .mk ⟨p.supply.region, p.supply.nodes⟩ n.span n.flags n.kind n.payload fields

/-- A node whose children are the same comes back. -/
theorem rebuild_same (h : n.fields.same fields = true) : rebuild n fields p = .ok n p := by
  simp only [rebuild, Node.withFields, h, if_true]
  rw [bind_of_ok (show Run.build (pure n) p = .ok n p from rfl)]
  simp only [Node.same_self]
  rfl

/-- A node whose children have changed is made anew. -/
theorem rebuild_changed (h : n.fields.same fields = false) :
    rebuild n fields p = .ok (p.renewed n fields)
      { p with
        supply := { p.supply with nodes := p.supply.nodes + 1 }
        stats :=
          if (p.renewed n fields).same n then p.stats
          else { p.stats with rebuilt := p.stats.rebuilt + 1 } } := by
  simp only [rebuild, Node.withFields, h]
  rw [bind_of_ok (show Run.build (if false = true then pure n
      else Node.create n.kind n.payload fields n.span n.flags) p = .ok (p.renewed n fields)
        { p with supply := { p.supply with nodes := p.supply.nodes + 1 } } from rfl)]
  by_cases hs : (p.renewed n fields).same n = true
  · simp only [hs, if_true]
    rfl
  · simp only [hs]
    rfl

/-- A node whose children have changed is made anew and counted, as long as the handles of the run are new. -/
theorem rebuild_renewed (h : n.fields.same fields = false) (hn : n.handle.region ≠ p.supply.region) :
    rebuild n fields p = .ok (p.renewed n fields)
      { p with
        supply := { p.supply with nodes := p.supply.nodes + 1 }
        stats := { p.stats with rebuilt := p.stats.rebuilt + 1 } } := by
  have hs : (p.renewed n fields).same n = false := by
    simp only [Node.same, beq_eq_false_iff_ne, ne_eq]
    exact fun hh => hn (congrArg Handle.region hh).symm
  rw [rebuild_changed h, hs]
  rfl

/-- Giving a node new children never fails. All it moves are the counts of nodes that are drawn and made again. -/
theorem rebuild_frame (n : SharedNode) (fields : Fields SharedNode SharedRow n.kind.slots) (p : Progress σ) :
    ∃ m nodes rebuilt,
      rebuild n fields p = .ok m { p with supply := { p.supply with nodes }, stats := { p.stats with rebuilt } } ∧
        p.supply.nodes ≤ nodes ∧ p.stats.rebuilt ≤ rebuilt ∧ rebuilt ≤ p.stats.rebuilt + 1 := by
  cases h : n.fields.same fields with
  | true => exact ⟨n, p.supply.nodes, p.stats.rebuilt, rebuild_same h, by omega, by omega, by omega⟩
  | false =>
    have made := rebuild_changed (p := p) h
    by_cases hs : (p.renewed n fields).same n = true
    · rw [if_pos hs] at made
      exact ⟨_, p.supply.nodes + 1, p.stats.rebuilt, made, by omega, by omega, by omega⟩
    · rw [if_neg hs] at made
      exact ⟨_, p.supply.nodes + 1, p.stats.rebuilt + 1, made, by omega, by omega, by omega⟩

theorem rebuild_returns (n : SharedNode) (fields : Fields SharedNode SharedRow n.kind.slots) (p : Progress σ) :
    ∃ m q, rebuild n fields p = .ok m q ∧ q.state = p.state := by
  obtain ⟨m, nodes, rebuilt, made, -⟩ := rebuild_frame n fields p
  exact ⟨m, _, made, rfl⟩

end Rebuild

/-! ### Steps and runs -/

/-- One step of a run under a limit. -/
inductive Step (t : Transform σ) (limit : Nat) (p : Progress σ) : Progress σ → Prop
  | asked (n : SharedNode) : Step t limit p (p.heed n (t n p.state))
  | deepened (d : Nat) (h : d ≤ limit) : Step t limit p (p.deepen d)
  | rowMade (items : List SharedNode) (span : Span) :
      Step t limit p (after (Run.build (Row.create items span) p))
  | nodeMade (n : SharedNode) (fields : Fields SharedNode SharedRow n.kind.slots) :
      Step t limit p (after (rebuild n fields p))

/-- A run can get from the first progress to the second one. -/
abbrev Reaches (t : Transform σ) (limit : Nat) : Progress σ → Progress σ → Prop :=
  Relation.ReflTransGen (Step t limit)

/-- A computation that only moves by steps. -/
def Moves (t : Transform σ) (limit : Nat) (x : Run σ α) : Prop :=
  ∀ p, Reaches t limit p (after (x p))

section Moves

variable {t : Transform σ} {limit : Nat}

theorem Moves.pure (a : α) : Moves t limit (Pure.pure a) := fun _ => .refl

theorem Moves.fail (e : PassError) : Moves t limit (Run.fail e : Run σ α) := fun _ => .refl

/-- What is put together from computations that move by steps moves by steps. -/
theorem Moves.bind {x : Run σ α} {f : α → Run σ β} (hx : Moves t limit x) (hf : ∀ a, Moves t limit (f a)) :
    Moves t limit (x >>= f) := by
  intro p
  have h := hx p
  cases hxp : x p with
  | ok a q =>
    rw [hxp] at h
    rw [bind_of_ok hxp]
    exact h.trans (hf a q)
  | error e q =>
    rw [hxp] at h
    rw [bind_of_error hxp]
    exact h

/-- What follows a computation begins where the computation ends. -/
theorem Moves.after_bind {f : α → Run σ β} (hf : ∀ a, Moves t limit (f a)) (x : Run σ α)
    (p : Progress σ) : Reaches t limit (after (x p)) (after ((x >>= f) p)) := by
  cases h : x p with
  | ok a q => rw [bind_of_ok h]; exact hf a q
  | error e q => rw [bind_of_error h]; exact .refl

theorem rebuild_moves (n : SharedNode) (fields : Fields SharedNode SharedRow n.kind.slots) :
    Moves t limit (rebuild n fields) := fun _ => .single (.nodeMade n fields)

/-- Traversals that visit nodes by steps move by steps themselves. -/
theorem moves_congruence (t : Transform σ) (limit : Nat) :
    Congruence fun {α : Type} (x : Run σ α) (_ : Run σ α) => Moves t limit x where
  pure := .pure
  fail := .fail
  row items span := fun _ => .single (.rowMade items span)
  bind := .bind

variable {visit : SharedNode → Run σ (Option SharedNode)} (hv : ∀ n, Moves t limit (visit n))

include hv

theorem visitItems_moves (items : List SharedNode) : Moves t limit (visitItems visit items) :=
  (moves_congruence t limit).visitItems (w := visit) hv items

private theorem visitRowWith_moves (r : SharedRow) : Moves t limit (visitRowWith visit r) :=
  (moves_congruence t limit).visitRowWith (w := visit) hv r

theorem visitChild_moves (parent : Kind) (label : String) {a : Arity} (c : Child SharedNode SharedRow a) :
    Moves t limit (visitChild visit parent label c) :=
  (moves_congruence t limit).visitChild (w := visit) hv parent label c

/-- The visits of slots only move by steps if those of nodes do. -/
theorem visitFields_moves (parent : Kind) {ss : List Slot} (fs : Fields SharedNode SharedRow ss) :
    Moves t limit (visitFields visit parent fs) :=
  (moves_congruence t limit).visitFields (w := visit) hv parent fs

omit hv

/-- A visit goes on from where the transform has replied. -/
theorem visitWith_reaches {below : SharedNode → Run σ SharedNode} (hb : ∀ n, Moves t limit (below n))
    (n : SharedNode) (p : Progress σ) : Reaches t limit (p.heed n (t n p.state)) (after (visitWith t below n p)) := by
  cases h : (t n p.state).answer with
  | error message => rw [visitWith_crashed h]; exact .refl
  | ok answer =>
    cases answer with
    | none => rw [visitWith_none h]; exact .refl
    | some m => rw [visitWith_some h]; exact (hb m).bind (fun _ => .pure _) _

/-- A visit only moves by steps if what is done below the answer does. -/
theorem visitWith_moves {below : SharedNode → Run σ SharedNode} (hb : ∀ n, Moves t limit (below n))
    (n : SharedNode) : Moves t limit (visitWith t below n) :=
  fun p => .head (.asked n) (visitWith_reaches hb n p)

/-- A descent only moves by steps. -/
theorem descend_moves (budget : Nat) (n : SharedNode) : Moves t limit (descend t limit budget n) := by
  induction budget generalizing n with
  | zero => exact fun _ => .refl
  | succ budget ih =>
    intro p
    have hstep : Reaches t limit p (p.deepen (limit - budget)) := .single (.deepened _ (Nat.sub_le ..))
    cases h : n.kind.isTerminal with
    | true => rw [descend_terminal t limit budget p h]; exact hstep
    | false =>
      rw [descend_inner t limit budget p h]
      have hfields : Moves t limit (visitFields (visitWith t (descend t limit budget)) n.kind n.fields) :=
        visitFields_moves (visitWith_moves ih) _ _
      exact hstep.trans (hfields.bind (rebuild_moves n) _)

theorem visit_moves (budget : Nat) (n : SharedNode) : Moves t limit (Pass.visit t limit budget n) :=
  visitWith_moves (descend_moves budget) n

/-- A run only moves by steps, whether or not it succeeds. -/
theorem Op.run_moves (budget : Nat) (op : Op) : Moves t limit (op.run t limit budget) := by
  cases op with
  | descend n => exact descend_moves budget n
  | visit n =>
    cases n with
    | none => exact .pure _
    | some n => exact visit_moves budget n
  | visitRow r => exact visitRowWith_moves (visit_moves budget) r

end Moves

end Pass

end SharedTree
