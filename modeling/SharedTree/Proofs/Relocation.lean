import SharedTree.Proofs.Register
import SharedTree.Sample

/-!
# Operations do not depend on where in a run they are carried out

An operation that is carried out when some levels are open does what it does on its own, under a limit that is smaller
by the number of open levels: it asks the transform the same questions, it comes to the same result, and what it counts
is added to what was counted before. An error because of the limit tells the limit of the run.

* `Relocates` says this of two computations without a register, one inside a run and one on its own. It passes to
  computations that are put together (`Relocates.bind`).
* `Op.run_relocates` is the statement for the operations.
* `Runner.operations_independent_of_place` says it of each point that a run with a register gets to.
-/

namespace SharedTree.Pass

open Transform (Call)

variable {σ α β : Type}

/-! ### A run on top of another one -/

/-- The counters when `s` is counted with `d` levels open, on top of `base`. -/
def Stats.atop (base : Stats) (d : Nat) (s : Stats) : Stats :=
  ⟨base.visited + s.visited, base.replaced + s.replaced, base.removed + s.removed, base.rebuilt + s.rebuilt,
    max base.deepest (d + s.deepest)⟩

/-- A point of a run that began with `d` open levels at `base`, when it is at `p` on its own. -/
def Progress.atop (base : Progress (Logged σ)) (d : Nat) (p : Progress (Logged σ)) : Progress (Logged σ) :=
  ⟨(p.state.1, p.state.2 ++ base.state.2), base.stats.atop d p.stats, p.supply, p.trace ++ base.trace⟩

/-- The same halt under another limit. -/
def Halt.under (limit : Nat) : Halt → Halt
  | .failed (.tooDeep _ kind) => .failed (.tooDeep limit kind)
  | e => e

/-- What a computation comes to on top of another one and under another limit. -/
def relocated (base : Progress (Logged σ)) (d limit : Nat) :
    EStateM.Result Halt (Progress (Logged σ)) α → EStateM.Result Halt (Progress (Logged σ)) α
  | .ok a p => .ok a (base.atop d p)
  | .error e p => .error (e.under limit) (base.atop d p)

/-- On top of the given point the first computation does what the second one does on its own. -/
def Relocates (base : Progress (Logged σ)) (d limit : Nat) (x y : Run (Logged σ) α) : Prop :=
  ∀ p, x (base.atop d p) = relocated base d limit (y p)

section Relocates

variable {t : Transform σ} {base : Progress (Logged σ)} {d limit : Nat}

private theorem Stats.atop_heed (s s' : Stats) (d : Nat) (n : SharedNode) (answer : Except String (Option SharedNode)) :
    (s.atop d s').heed n answer = s.atop d (s'.heed n answer) := by
  rcases answer with message | _ | m
  · rfl
  · rfl
  · unfold Stats.heed Stats.atop
    by_cases same : m.same n = true
    · simp only [same, if_true]
      rfl
    · simp only [same]
      rfl

private theorem Progress.atop_heed (t : Transform σ) (base p : Progress (Logged σ)) (d : Nat) (n : SharedNode) :
    (base.atop d p).heed n (t.recorded n (base.atop d p).state) = base.atop d (p.heed n (t.recorded n p.state)) := by
  have stats := base.stats.atop_heed p.stats d n (t n p.state.1).answer
  have trace : answerEvents n (t n p.state.1).answer ++ ((t n p.state.1).events.reverse ++ (p.trace ++ base.trace)) =
      answerEvents n (t n p.state.1).answer ++ ((t n p.state.1).events.reverse ++ p.trace) ++ base.trace := by
    simp only [List.append_assoc]
  let record := t.call n p.state.1 :: (p.state.2 ++ base.state.2)
  exact congrArg₂ (Progress.mk ((t n p.state.1).state, record) · p.supply ·) stats trace

/-- A level that is opened on its own is one of so many above those that are open. -/
theorem Progress.atop_deepen (base p : Progress (Logged σ)) (d k : Nat) :
    (base.atop d p).deepen (d + k) = base.atop d (p.deepen k) := by
  have level : max (max base.stats.deepest (d + p.stats.deepest)) (d + k) =
      max base.stats.deepest (d + max p.stats.deepest k) := by omega
  unfold Progress.deepen Progress.atop Stats.atop
  simp only [level]

theorem Relocates.bind {x y : Run (Logged σ) α} {f g : α → Run (Logged σ) β} (hx : Relocates base d limit x y)
    (hf : ∀ a, Relocates base d limit (f a) (g a)) : Relocates base d limit (x >>= f) (y >>= g) := by
  intro p
  have first := hx p
  cases h : y p with
  | ok a q =>
    rw [h] at first
    rw [bind_of_ok h, bind_of_ok first]
    exact hf a q
  | error e q =>
    rw [h] at first
    rw [bind_of_error h, bind_of_error first]
    rfl

private theorem relocates_compatible (base : Progress (Logged σ)) (d limit : Nat) :
    Compatible fun {α : Type} (x y : Run (Logged σ) α) => Relocates base d limit x y where
  pure _ := fun _ => rfl
  removed _ _ := fun _ => rfl
  row _ _ := fun _ => rfl
  bind := .bind

private theorem rebuild_relocates (n : SharedNode) (fields : Fields SharedNode SharedRow n.kind.slots) :
    Relocates base d limit (rebuild n fields) (rebuild n fields) := by
  intro p
  cases h : n.fields.same fields with
  | true =>
    rw [rebuild_same h, rebuild_same h]
    rfl
  | false =>
    have renewed : (base.atop d p).renewed n fields = p.renewed n fields := rfl
    rw [rebuild_changed h, rebuild_changed h, renewed]
    by_cases same : (p.renewed n fields).same n = true
    · rw [if_pos same, if_pos same]
      rfl
    · rw [if_neg same, if_neg same]
      rfl

private theorem visitWith_relocates {below below' : SharedNode → Run (Logged σ) SharedNode}
    (hb : ∀ n, Relocates base d limit (below n) (below' n)) (n : SharedNode) :
    Relocates base d limit (visitWith t.recorded below n) (visitWith t.recorded below' n) := by
  intro p
  have reply := base.atop_heed t p d n
  cases h : (t n p.state.1).answer with
  | error message =>
    have atop : (t.recorded n (base.atop d p).state).answer = .error message := h
    have own : (t.recorded n p.state).answer = .error message := h
    rw [visitWith_crashed atop, visitWith_crashed own, reply]
    rfl
  | ok answer =>
    have atop : (t.recorded n (base.atop d p).state).answer = .ok answer := h
    have own : (t.recorded n p.state).answer = .ok answer := h
    cases answer with
    | none =>
      rw [visitWith_none atop, visitWith_none own, reply]
      rfl
    | some m =>
      rw [visitWith_some atop, visitWith_some own, reply]
      have goes_on := (hb m).bind fun m' => (relocates_compatible base d limit).pure (some m')
      exact goes_on (p.heed n (t.recorded n p.state))

/-- The descent inside a run and the one on its own, when they have the same budget. -/
theorem descend_relocates {own budget : Nat} (h : budget ≤ own) (n : SharedNode) :
    Relocates base d (d + own) (descend t.recorded (d + own) budget n) (descend t.recorded own budget n) := by
  induction budget generalizing n with
  | zero => exact fun _ => rfl
  | succ budget ih =>
    intro p
    have level : d + own - budget = d + (own - budget) := by omega
    have opened := base.atop_deepen p d (own - budget)
    cases hn : n.kind.isTerminal with
    | true =>
      rw [descend_terminal _ _ _ _ hn, descend_terminal _ _ _ _ hn, level, opened]
      rfl
    | false =>
      have visits : ∀ c, Relocates base d (d + own) (visit t.recorded (d + own) budget c)
          (visit t.recorded own budget c) := visitWith_relocates (ih (by omega))
      have fields := (relocates_compatible base d (d + own)).visitFields visits n.kind n.fields
      rw [descend_inner _ _ _ _ hn, descend_inner _ _ _ _ hn, level, opened]
      exact fields.bind (rebuild_relocates n) (p.deepen (own - budget))

/-- An operation inside a run, under the limit of the run and with the levels that are left, is the same operation on
its own under the number of levels that are left. -/
theorem Op.run_relocates (own : Nat) (op : Op) :
    Relocates base d (d + own) (op.run t.recorded (d + own) own) (op.run t.recorded own own) := by
  have visits : ∀ n, Relocates base d (d + own) (Pass.visit t.recorded (d + own) own n)
      (Pass.visit t.recorded own own n) := visitWith_relocates (descend_relocates (Nat.le_refl own))
  cases op with
  | descend n => exact descend_relocates (Nat.le_refl own) n
  | visit n =>
    cases n with
    | none => exact fun _ => rfl
    | some n => exact visits n
  | visitRow r => exact (relocates_compatible base d (d + own)).visitRowWith visits r

end Relocates

/-! ### Breakdowns -/

/-- An operation breaks down only in a call of the transform, with the message of the transform. -/
theorem Op.broken_down {t : Transform σ} {limit : Nat} {op : Op} {p q : Progress (Logged σ)} {message : String}
    (h : op.run t.recorded limit limit p = .error (.crashed message) q) :
    ∃ call, q.state.2.head? = some call ∧ call.answer = .error message := by
  obtain ⟨m, -, -, fails⟩ := (op.tracks p).fails_of_error h
  cases fails with
  | @crashed _ _ n p _ answer => exact ⟨t.call n p.state.1, rfl, answer⟩

/-! ### Points of a run -/

/-- No more nodes are open than the limit allows. -/
theorem Within.room {t : Transform σ} {limit : Nat} {m m' : Moment σ} (h : Within t limit m m')
    (hm : m.above.length ≤ limit) : m'.above.length ≤ limit := by
  induction h with
  | refl => exact hm
  | tail _ hn ih =>
    cases hn with
    | answer h => exact ih
    | child room _ _ _ _ _ => exact room
    | element _ _ _ => exact ih

namespace Register

/-- A result without the register. -/
def ungauged : EStateM.Result Halt (Progress (Gauged σ)) α → EStateM.Result Halt (Progress σ) α
  | .ok a p => .ok a p.ungauged
  | .error e p => .error e p.ungauged

private theorem ungauged_eq {d : UInt32} {x : EStateM.Result Halt (Progress (Gauged σ)) α}
    {y : EStateM.Result Halt (Progress σ) α} (h : Restored d x y) : ungauged x = y := by
  cases h <;> rfl

/-- The point from which the same caller begins a run of its own: no level is open, nothing has been counted, and no
call is on record. -/
def fresh (p : Progress (Gauged (Logged σ))) : Progress (Gauged (Logged σ)) :=
  ⟨⟨(p.state.caller.1, []), 0⟩, {}, p.supply, []⟩

/-- The register holds `d`, which is within the limit, and so many levels have been counted. -/
structure InRange (limit d : Nat) (p : Progress (Gauged σ)) : Prop where
  depth : p.state.depth.toNat = d
  room : d ≤ limit
  counted : d ≤ p.stats.deepest

/-- What opening and closing a level comes to from a point `p` with `d` open levels. -/
structure Opens (limit d : Nat) (p : Progress (Gauged σ)) : Prop where
  /-- If the limit allows one more level, then it is opened, and closing it brings the register back. -/
  room : d < limit → ∀ kind, ∃ q, enter limit kind p = .ok () q ∧ InRange limit (d + 1) q ∧
    leave q = .ok () { q with state := p.state }
  full : d = limit → ∀ kind, enter limit kind p = .error (.failed (.tooDeep limit kind)) p

/-- What an operation comes to from a point `p` with `d` open levels (`here`), compared with what it comes to on its
own (`own`). -/
structure Independent (limit d : Nat) (p : Progress (Gauged (Logged σ)))
    (here own : EStateM.Result Halt (Progress (Gauged (Logged σ))) α) : Prop where
  outcome : Pass.outcome here = (Pass.outcome own).mapError (Halt.under limit)
  /-- The register is as it was, on success and on every error. -/
  depth : (∀ message, Pass.outcome here ≠ .error (.crashed message)) → (after here).state.depth = p.state.depth
  /-- A breakdown is one of the transform, in the last call. -/
  breakdown : ∀ message, Pass.outcome here = .error (.crashed message) →
    ∃ call, (after own).state.caller.2.head? = some call ∧ call.answer = .error message
  caller : (after here).state.caller.1 = (after own).state.caller.1
  calls : (after here).state.caller.2 = (after own).state.caller.2 ++ p.state.caller.2
  visited : (after here).stats.visited = p.stats.visited + (after own).stats.visited
  replaced : (after here).stats.replaced = p.stats.replaced + (after own).stats.replaced
  removed : (after here).stats.removed = p.stats.removed + (after own).stats.removed
  rebuilt : (after here).stats.rebuilt = p.stats.rebuilt + (after own).stats.rebuilt
  deepest : (after here).stats.deepest = max p.stats.deepest (d + (after own).stats.deepest)

section Points

variable {limit k : Nat}

/-- Neither opening a level nor closing it leaves the range of the register. -/
theorem InRange.opens {p : Progress (Gauged σ)} (h : InRange limit k p) (small : limit < UInt32.size) :
    Opens limit k p := by
  have depth := h.depth
  refine ⟨fun less kind => ?_, fun full kind => ?_⟩
  · have within : p.state.depth.toNat < limit := by omega
    have safe : p.state.depth.toNat + 1 < UInt32.size := by omega
    have entered : enter limit kind p = _ := enter_room p.ungauged within small
    have level : (p.state.depth + 1).toNat = k + 1 := by rw [toNat_succ safe, depth]
    have counted : k + 1 ≤ max p.stats.deepest (p.state.depth.toNat + 1) := by omega
    exact ⟨_, entered, ⟨level, less, counted⟩, leave_open _ safe⟩
  · have all : limit ≤ p.state.depth.toNat := by omega
    exact enter_full p.ungauged all

/-- A computation that does on top of a point what another one does on its own, and brings the register back. -/
theorem Independent.of_restored {p : Progress (Gauged (Logged σ))}
    {here own : EStateM.Result Halt (Progress (Gauged (Logged σ))) α}
    {result : EStateM.Result Halt (Progress (Logged σ)) α}
    (hhere : Restored p.state.depth here (relocated p.ungauged k limit result)) (hown : Restored 0 own result)
    (hbreak : ∀ message q, result = .error (.crashed message) q →
      ∃ call, q.state.2.head? = some call ∧ call.answer = .error message) :
    Independent limit k p here own := by
  cases hown with
  | ok a q =>
    cases hhere with
    | ok a q => exact ⟨rfl, fun _ => rfl, nofun, rfl, rfl, rfl, rfl, rfl, rfl, rfl⟩
  | failed e q =>
    cases e with
    | tooDeep l kind =>
      cases hhere with
      | failed e q => exact ⟨rfl, fun _ => rfl, nofun, rfl, rfl, rfl, rfl, rfl, rfl, rfl⟩
    | requiredRemoved parent slot =>
      cases hhere with
      | failed e q => exact ⟨rfl, fun _ => rfl, nofun, rfl, rfl, rfl, rfl, rfl, rfl, rfl⟩
  | crashed message d' q =>
    cases hhere with
    | crashed message d' q =>
      refine ⟨rfl, fun none => absurd rfl (none message), fun message' same => ?_, rfl, rfl, rfl, rfl, rfl, rfl, rfl⟩
      cases same
      exact hbreak message q rfl

/-- After an operation the register is in range again, unless the operation has broken down. -/
theorem Independent.inRange {p : Progress (Gauged (Logged σ))}
    {here own : EStateM.Result Halt (Progress (Gauged (Logged σ))) α} (h : Independent limit k p here own)
    (first : InRange limit k p) (whole : ∀ message, Pass.outcome here ≠ .error (.crashed message)) :
    InRange limit k (after here) := by
  have depth : (after here).state.depth.toNat = k := by rw [h.depth whole, first.depth]
  have counted : k ≤ (after here).stats.deepest := by
    rw [h.deepest]
    exact Nat.le_trans first.counted (Nat.le_max_left _ _)
  exact ⟨depth, first.room, counted⟩

/-- An operation at a point with `k` open levels is the same operation on its own under a limit that is smaller by
`k`. -/
theorem InRange.independent (t : Transform σ) (op : Op) {p : Progress (Gauged (Logged σ))} (h : InRange limit k p)
    (small : limit < UInt32.size) :
    Independent limit k p (Register.run t.recorded limit op p) (Register.run t.recorded (limit - k) op (fresh p)) := by
  obtain ⟨depth, room, counted⟩ := h
  let own : Progress (Logged σ) := (fresh p).ungauged
  have base : p.ungauged.atop k own = p.ungauged := by
    have stats : p.stats.atop k {} = p.stats := by
      unfold Stats.atop
      simp only [Nat.add_zero, Nat.max_eq_left counted]
    show Progress.mk _ (p.stats.atop k {}) _ _ = _
    rw [stats]
    rfl
  have relocates : op.run t.recorded (k + (limit - k)) (limit - k) (p.ungauged.atop k own) = _ :=
    Op.run_relocates _ op own
  have limits : k + (limit - k) = limit := by omega
  rw [base, limits] at relocates
  have here := run_restores (t := t.recorded) small (depth ▸ room) op p.ungauged
  rw [depth, relocates] at here
  have less : limit - k < UInt32.size := by omega
  have alone := run_restores (t := t.recorded) (d := 0) less (Nat.zero_le _) op own
  exact .of_restored here alone fun message q h => Op.broken_down h

end Points

end Register

private theorem Options.limit_le (o : Options) : o.limit ≤ 10000 := Nat.min_le_right _ _

/-- Operations do not depend on where in a run they are carried out. Wherever an operation begins in a run, the register
holds the number of open nodes, and the limit allows as many. This is so again when a level is opened and when an
operation has been carried out. At such a point any operation does what it does on its own under a limit that is smaller
by the number of open nodes. -/
theorem Runner.operations_independent_of_place (r : Runner) (region : Nat) (t : Transform σ) (op : Op) (s : σ) :
    let limit := r.options.limit
    let start := (Progress.start region op.entry (s, [])).gauged 0
    limit ≤ 10000 ∧
    r.perform region t.recorded op (s, []) =
      r.conclude (Register.ungauged (Register.run t.recorded limit op start)) ∧
    Register.moments t.recorded limit op start = (r.moments region t.recorded op (s, [])).map Moment.gauged ∧
    (∀ m ∈ Register.moments t.recorded limit op start, Register.InRange limit m.above.length m.progress) ∧
    ∀ d p, Register.InRange limit d p → Register.Opens limit d p ∧ ∀ op' : Op,
      let here := Register.run t.recorded limit op' p
      Register.Independent limit d p here (Register.run t.recorded (limit - d) op' (Register.fresh p)) ∧
      ((∀ message, outcome here ≠ .error (.crashed message)) → Register.InRange limit d (after here)) := by
  intro limit start
  have bounded : limit ≤ 10000 := r.options.limit_le
  have size : UInt32.size = 2 ^ 32 := rfl
  have small : limit < UInt32.size := by omega
  have moments : Register.moments t.recorded limit op start =
      (r.moments region t.recorded op (s, [])).map Moment.gauged := Register.moments_eq small op _
  have restored := Register.run_restores (t := t.recorded) (d := 0) small (Nat.zero_le _) op
    (.start region op.entry (s, []))
  refine ⟨bounded, ?_, moments, fun m hm => ?_, fun d p h => ⟨h.opens small, fun op' => ?_⟩⟩
  · rw [Runner.perform_eq, Register.ungauged_eq restored]
    rfl
  · rw [moments] at hm
    obtain ⟨n, hn, rfl⟩ := List.mem_map.mp hm
    have within := op.within_of_mem_moments _ n hn
    have room : n.above.length ≤ limit := within.room (Nat.zero_le _)
    have depth : n.gauged.progress.state.depth.toNat = n.above.length :=
      UInt32.toNat_ofNat_of_lt' (Nat.lt_of_le_of_lt room small)
    exact ⟨depth, room, within.deepest (Nat.zero_le _)⟩
  · have independent := h.independent t op' small
    exact ⟨independent, independent.inRange h⟩

/-- When the leaf of a twig is due under a limit of two levels, one level is open. The visit of a twig goes too deep
from there, as it does on its own under a limit of one level, but the error tells the limit of the run. -/
theorem Runner.operations_independent_of_place_twig :
    let t : Transform (Logged Unit) := Transform.identity.recorded
    let op : Op := .visit (some Sample.twig)
    ∃ m ∈ Register.moments t 2 op ((Progress.start 1 op.entry ((), [])).gauged 0), m.above = [Sample.twig] ∧
      outcome (Register.run t 1 op (Register.fresh m.progress)) = .error (.failed (.tooDeep 1 .thisKeyword)) ∧
      outcome (Register.run t 2 op m.progress) = .error (.failed (.tooDeep 2 .thisKeyword)) := by
  intro t op
  obtain ⟨m, third, above, own⟩ : ∃ m : Moment (Gauged (Logged Unit)),
      (Register.moments t 2 op ((Progress.start 1 op.entry ((), [])).gauged 0))[2]? = some m ∧
        m.above = [Sample.twig] ∧
        outcome (Register.run t 1 op (Register.fresh m.progress)) = .error (.failed (.tooDeep 1 .thisKeyword)) :=
    ⟨_, rfl, rfl, rfl⟩
  have mem := List.mem_of_getElem? third
  refine ⟨m, mem, above, own, ?_⟩
  obtain ⟨-, -, -, points, independent⟩ :=
    Runner.operations_independent_of_place { options := { maxDepth := 2 } } 1 Transform.identity op ()
  have here := ((independent _ _ (points m mem)).2 op).1
  rw [above] at here
  exact here.outcome.trans (congrArg (Except.mapError (Halt.under 2)) own)

end SharedTree.Pass
