import SharedTree.Proofs.Record
import SharedTree.Sample

/-!
# The limit of levels

A limit only ever cuts a run short. Nothing else depends on it: under a greater limit a run is the same, or it is the
same up to the point where the smaller limit was exceeded and goes on from there.

* `Cuts` says this of two computations, and it passes to computations that are put together (`Cuts.bind`).
* `Op.run_cuts`: an operation under a limit cuts the same operation under a greater one, if as many levels are open.
* `Runner.perform_cut_by_limit` is the statement for the runs of two runners.
-/

namespace SharedTree.Pass

open Transform (Call)

variable {σ α β : Type}

/-- From each point, the first computation does what the second one does, or it goes too deep at a point that the second
one goes through. The second computation runs under the limit. -/
def Cuts (t : Transform σ) (limit : Nat) (x y : Run σ α) : Prop :=
  ∀ p, x p = y p ∨ ∃ l k q, x p = .error (.failed (.tooDeep l k)) q ∧ Reaches t limit q (after (y p))

section Cuts

variable {t : Transform σ} {limit : Nat}

theorem Cuts.refl (x : Run σ α) : Cuts t limit x x := fun _ => .inl rfl

theorem Cuts.bind {x y : Run σ α} {f g : α → Run σ β} (hxy : Cuts t limit x y) (hfg : ∀ a, Cuts t limit (f a) (g a))
    (hg : ∀ a, Moves t limit (g a)) : Cuts t limit (x >>= f) (y >>= g) := by
  intro p
  rcases hxy p with same | ⟨l, k, q, cut, reach⟩
  · cases h : y p with
    | ok a q =>
      rw [h] at same
      rw [bind_of_ok h, bind_of_ok same]
      exact hfg a q
    | error e q =>
      rw [h] at same
      rw [bind_of_error h, bind_of_error same]
      exact .inl rfl
  · -- the first computation does not get to what follows, and the second one only goes on
    right
    refine ⟨l, k, q, bind_of_error cut, ?_⟩
    exact reach.trans (Moves.after_bind hg y p)

/-- A traversal is cut short where one of the visits of nodes is. -/
theorem cuts_congruence (t : Transform σ) (limit : Nat) :
    Congruence fun {α : Type} (x y : Run σ α) => Cuts t limit x y ∧ Moves t limit y where
  pure a := ⟨.refl _, .pure a⟩
  fail e := ⟨.refl _, .fail e⟩
  row items span := ⟨.refl _, fun _ => .single (.rowMade items span)⟩
  bind hx hf := ⟨hx.1.bind (fun a => (hf a).1) fun a => (hf a).2, hx.2.bind fun a => (hf a).2⟩

private theorem visitWith_cuts {below₁ below₂ : SharedNode → Run σ SharedNode}
    (hc : ∀ n, Cuts t limit (below₁ n) (below₂ n)) (n : SharedNode) :
    Cuts t limit (visitWith t below₁ n) (visitWith t below₂ n) := by
  intro p
  cases h : (t n p.state).answer with
  | error message =>
    left
    rw [visitWith_crashed h, visitWith_crashed h]
  | ok answer =>
    cases answer with
    | none =>
      left
      rw [visitWith_none h, visitWith_none h]
    | some m =>
      have cuts : Cuts t limit (below₁ m >>= fun m' => pure (some m')) (below₂ m >>= fun m' => pure (some m')) :=
        (hc m).bind (fun _ => .refl _) (fun _ => .pure _)
      rw [visitWith_some h, visitWith_some h]
      exact cuts (p.heed n (t n p.state))

/-- The descent below a node when as many levels are open under both limits. -/
theorem descend_cuts (opened : Nat) {less more : Nat} (h : less ≤ more) (n : SharedNode) :
    Cuts t (opened + more) (descend t (opened + less) less n) (descend t (opened + more) more n) := by
  induction less generalizing opened more n with
  | zero =>
    intro p
    right
    exact ⟨_, _, p, rfl, descend_moves more n p⟩
  | succ less ih =>
    obtain ⟨more, rfl⟩ : ∃ k, more = k + 1 := ⟨more - 1, by omega⟩
    have below : ∀ m, Cuts t (opened + (more + 1)) (descend t (opened + (less + 1)) less m)
        (descend t (opened + (more + 1)) more m) := by
      intro m
      have := ih (opened + 1) (show less ≤ more by omega) m
      rwa [show opened + 1 + less = opened + (less + 1) by omega,
        show opened + 1 + more = opened + (more + 1) by omega] at this
    intro p
    -- the level that is opened has the same number under both limits
    have level₁ : opened + (less + 1) - less = opened + 1 := by omega
    have level₂ : opened + (more + 1) - more = opened + 1 := by omega
    cases hn : n.kind.isTerminal with
    | true =>
      left
      rw [descend_terminal _ _ _ _ hn, descend_terminal _ _ _ _ hn, level₁, level₂]
    | false =>
      rw [descend_inner _ _ _ _ hn, descend_inner _ _ _ _ hn, level₁, level₂]
      have visits : ∀ c, Cuts t (opened + (more + 1)) (visit t (opened + (less + 1)) less c)
          (visit t (opened + (more + 1)) more c) := visitWith_cuts below
      have fields := (cuts_congruence t (opened + (more + 1))).visitFields
        (fun c => ⟨visits c, visit_moves more c⟩) n.kind n.fields
      exact fields.1.bind (fun _ => .refl _) (rebuild_moves n) (p.deepen (opened + 1))

/-- An operation under a limit cuts the same operation under a greater one, or both do the same. -/
theorem Op.run_cuts {small large : Nat} (h : small ≤ large) (op : Op) :
    Cuts t large (op.run t small small) (op.run t large large) := by
  have descends : ∀ n, Cuts t large (Pass.descend t small small n) (Pass.descend t large large n) := by
    intro n
    have := descend_cuts (t := t) 0 h n
    rwa [Nat.zero_add, Nat.zero_add] at this
  have visits : ∀ n, Cuts t large (Pass.visit t small small n) (Pass.visit t large large n) :=
    visitWith_cuts descends
  cases op with
  | descend n => exact descends n
  | visit n =>
    cases n with
    | none => exact .refl _
    | some n => exact visits n
  | visitRow r => exact ((cuts_congruence t large).visitRowWith (fun n => ⟨visits n, visit_moves large n⟩) r).1

end Cuts

/-! ### Runs of two runners -/

/-- Two reports agree in everything but the runner: the outcome, the state of the caller, the events, the counters and
the handles drawn. -/
structure Report.Agrees (x y : Report σ α) : Prop where
  outcome : x.outcome = y.outcome
  state : x.state = y.state
  events : x.events = y.events
  stats : x.stats = y.stats
  supply : x.supply = y.supply

/-- The report on a run does not depend on the runner otherwise than by the limit. -/
theorem Runner.conclude_agrees (r₁ r₂ : Runner) (result : EStateM.Result Halt (Progress σ) α) :
    (r₂.conclude result).Agrees (r₁.conclude result) := by
  rcases result with ⟨a, p⟩ | ⟨e | message, p⟩ <;> exact ⟨rfl, rfl, rfl, rfl, rfl⟩

private theorem Options.limit_of_ceiling {o : Options} (h : depthCeiling ≤ o.maxDepth) :
    o.limit = depthCeiling.toNat := by
  have : depthCeiling.toNat ≤ o.maxDepth.toNat := UInt32.le_iff_toNat_le.mp h
  unfold Options.limit
  omega

/-- Of two runs under limits the one under the smaller limit is cut short or the same. If it does not end because it
went too deep, the two reports agree, the record of all calls included. If it went too deep, its calls are the first
calls of the run under the greater limit. All limits from the ceiling on give the same runs. -/
theorem Runner.perform_cut_by_limit (region : Nat) (t : Transform σ) (op : Op) (s : σ) (r₁ r₂ : Runner) :
    (r₁.options.limit ≤ r₂.options.limit →
      ((∀ l k, (r₁.perform region t.recorded op (s, [])).outcome ≠ .error (.failed (.tooDeep l k))) →
        (r₂.perform region t.recorded op (s, [])).Agrees (r₁.perform region t.recorded op (s, []))) ∧
      ∀ l k, (r₁.perform region t.recorded op (s, [])).outcome = .error (.failed (.tooDeep l k)) →
        (r₁.perform region t.recorded op (s, [])).state.2.reverse <+:
          (r₂.perform region t.recorded op (s, [])).state.2.reverse) ∧
    (depthCeiling ≤ r₁.options.maxDepth → depthCeiling ≤ r₂.options.maxDepth →
      (r₂.perform region t.recorded op (s, [])).Agrees (r₁.perform region t.recorded op (s, []))) := by
  let start : Progress (Logged σ) := .start region op.entry (s, [])
  rw [Runner.perform_eq, Runner.perform_eq]
  constructor
  · intro h
    rw [Runner.conclude_outcome, Runner.conclude_state, Runner.conclude_state]
    rcases Op.run_cuts h op start with same | ⟨l, k, q, cut, reach⟩
    · rw [same]
      exact ⟨fun _ => Runner.conclude_agrees r₁ r₂ _, fun _ _ _ => List.prefix_rfl⟩
    · refine ⟨fun none => ?_, fun _ _ _ => ?_⟩
      · exact absurd (congrArg Pass.outcome cut) (none l k)
      · have later : Later q (after (op.run t.recorded r₂.options.limit r₂.options.limit start)) := .of_reaches reach
        rw [cut]
        exact List.reverse_prefix.mpr later.record
  · intro h₁ h₂
    rw [Options.limit_of_ceiling h₁, Options.limit_of_ceiling h₂]
    exact Runner.conclude_agrees r₁ r₂ _

/-- The visit of a twig under a limit of one level goes too deep at the leaf, and its calls are the first calls of the
visit under the greatest limit. -/
theorem Runner.perform_cut_by_limit_twig :
    let low : Runner := { options := { maxDepth := 1 } }
    let high : Runner := { options := { maxDepth := depthCeiling } }
    let op : Op := .visit (some Sample.twig)
    (low.perform 1 (Transform.swapping 2 none).recorded op (0, [])).outcome =
        .error (.failed (.tooDeep 1 .thisKeyword)) ∧
      (low.perform 1 (Transform.swapping 2 none).recorded op (0, [])).state.2.reverse <+:
        (high.perform 1 (Transform.swapping 2 none).recorded op (0, [])).state.2.reverse := by
  intro low high op
  have deep : (low.perform 1 (Transform.swapping 2 none).recorded op (0, [])).outcome =
      .error (.failed (.tooDeep 1 .thisKeyword)) := rfl
  have limits : low.options.limit ≤ high.options.limit := by decide
  exact ⟨deep, ((Runner.perform_cut_by_limit 1 (Transform.swapping 2 none) op 0 low high).1 limits).2 _ _ deep⟩

end SharedTree.Pass
