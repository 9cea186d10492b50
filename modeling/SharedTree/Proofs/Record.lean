import SharedTree.Proofs.Step

/-!
# The calls of a run

A transform that is `recorded` keeps a list of its calls, the newest first. In a run with such a transform the record
only grows, and so do the counters (`Later.of_reaches`).

* `callsBetween` is what two points of a run put on record between them.
* `Runner.perform_recorded`: a run is not changed by the record. What is shown of recorded runs is therefore true of
  all runs.
* A call keeps its node when the answer is the very node. `Calm` says that all calls between two points have done so
  and that no change was counted, and `Stirred` that there was another call and that changes were counted.
-/

namespace SharedTree.Pass

open Transform (Call)

variable {σ : Type}

/-- A state of the caller with the record of the calls. -/
abbrev Logged (σ : Type) : Type := σ × List (Call σ)

def Transform.call (t : Transform σ) (n : SharedNode) (s : σ) : Call σ := ⟨n, s, (t n s).answer, (t n s).state⟩

/-- A recorded transform puts the call on record and otherwise replies as the transform itself. -/
theorem Transform.recorded_state (t : Transform σ) (n : SharedNode) (p : Progress (Logged σ)) :
    (p.heed n (t.recorded n p.state)).state = ((t n p.state.1).state, t.call n p.state.1 :: p.state.2) := rfl

/-- A transform that counts its calls and keeps every node but one: when it has been asked about `k` others, its answer
is `m`. -/
def Transform.swapping (k : Nat) (m : Option SharedNode) : Transform Nat := fun n calls =>
  ⟨.ok (if calls = k then m else some n), calls + 1, []⟩

/-- Whether the answer of a call is the very node that was asked about. -/
def Transform.Call.kept (c : Call σ) : Bool :=
  match c.answer with
  | .ok (some m) => m.same c.node
  | _ => false

def Stats.changes (s : Stats) : Nat := s.replaced + s.removed + s.rebuilt

/-- The number of calls on record that did not keep their node. -/
def Progress.strays (p : Progress (Logged σ)) : Nat := p.state.2.countP fun c => !c.kept

/-- The calls that are on record at the second of two points of a run but not yet at the first, the newest first. -/
def callsBetween (p q : Progress (Logged σ)) : List (Call σ) :=
  q.state.2.take (q.state.2.length - p.state.2.length)

/-! ### Growth -/

/-- The second of two points of a run is a later one. -/
structure Later (p q : Progress (Logged σ)) : Prop where
  record : p.state.2 <:+ q.state.2
  region : q.supply.region = p.supply.region
  replaced : p.stats.replaced ≤ q.stats.replaced
  removed : p.stats.removed ≤ q.stats.removed
  rebuilt : p.stats.rebuilt ≤ q.stats.rebuilt

namespace Later

variable {p q r : Progress (Logged σ)}

theorem refl (p : Progress (Logged σ)) : Later p p :=
  ⟨List.suffix_rfl, rfl, Nat.le_refl _, Nat.le_refl _, Nat.le_refl _⟩

theorem trans (h : Later p q) (h' : Later q r) : Later p r :=
  ⟨h.record.trans h'.record, h'.region.trans h.region, Nat.le_trans h.replaced h'.replaced,
    Nat.le_trans h.removed h'.removed, Nat.le_trans h.rebuilt h'.rebuilt⟩

theorem changes (h : Later p q) : p.stats.changes ≤ q.stats.changes := by
  have := h.replaced
  have := h.removed
  have := h.rebuilt
  unfold Stats.changes
  omega

theorem strays (h : Later p q) : p.strays ≤ q.strays := h.record.sublist.countP_le

private theorem stats_le_heed (s : Stats) (n : SharedNode) (answer : Except String (Option SharedNode)) :
    s.replaced ≤ (s.heed n answer).replaced ∧ s.removed ≤ (s.heed n answer).removed ∧
      s.rebuilt ≤ (s.heed n answer).rebuilt := by
  rcases answer with message | _ | m
  · exact ⟨Nat.le_refl _, Nat.le_refl _, Nat.le_refl _⟩
  · exact ⟨Nat.le_refl _, Nat.le_succ _, Nat.le_refl _⟩
  · simp only [Stats.heed]
    split <;> exact ⟨by omega, by omega, by omega⟩

/-- Each step leads on to a later point. -/
theorem of_step {t : Transform σ} {limit : Nat} (h : Step t.recorded limit p q) : Later p q := by
  cases h with
  | asked n =>
    obtain ⟨replaced, removed, rebuilt⟩ := stats_le_heed p.stats n (t.recorded n p.state).answer
    exact ⟨List.suffix_cons _ _, rfl, replaced, removed, rebuilt⟩
  | deepened d h => exact ⟨List.suffix_rfl, rfl, Nat.le_refl _, Nat.le_refl _, Nat.le_refl _⟩
  | rowMade items span => exact ⟨List.suffix_rfl, rfl, Nat.le_refl _, Nat.le_refl _, Nat.le_refl _⟩
  | nodeMade n fields =>
    obtain ⟨m, nodes, rebuilt, made, -, grows, -⟩ := rebuild_frame n fields p
    rw [made]
    exact ⟨List.suffix_rfl, rfl, Nat.le_refl _, Nat.le_refl _, grows⟩

/-- What a run reaches is later. -/
theorem of_reaches {t : Transform σ} {limit : Nat} (h : Reaches t.recorded limit p q) : Later p q := by
  induction h with
  | refl => exact refl p
  | tail _ hstep ih => exact ih.trans (of_step hstep)

/-- A computation that succeeds ends at a later point. -/
theorem of_moves {α : Type} {t : Transform σ} {limit : Nat} {x : Run (Logged σ) α} {a : α}
    (hx : Moves t.recorded limit x) (h : x p = .ok a q) : Later p q := by
  have := hx p
  rw [h] at this
  exact of_reaches this

/-- What is on record later is what was put there in between and what was there before. -/
theorem record_eq (h : Later p q) : q.state.2 = callsBetween p q ++ p.state.2 := by
  obtain ⟨between, hb⟩ := h.record
  rw [callsBetween, ← hb, List.length_append, Nat.add_sub_cancel, List.take_left]

private theorem strays_eq (h : Later p q) : q.strays = (callsBetween p q).countP (fun c => !c.kept) + p.strays := by
  rw [Progress.strays, h.record_eq, List.countP_append]
  rfl

end Later

/-- What is on record are calls of the transform. -/
theorem Runner.call_of_recorded {r : Runner} {region : Nat} {t : Transform σ} {op : Op} {s : σ} {c : Call σ}
    (h : c ∈ (r.perform region t.recorded op (s, [])).state.2) : ∃ n s', c = t.call n s' := by
  rw [Runner.perform_eq, Runner.conclude_state] at h
  have moves : Moves t.recorded r.options.limit (op.run t.recorded r.options.limit r.options.limit) := op.run_moves _
  specialize moves (.start region op.entry (s, []))
  generalize after _ = q at h moves
  induction moves with
  | refl => cases h
  | tail _ step ih =>
    cases step with
    | asked n =>
      rw [Transform.recorded_state] at h
      rcases List.mem_cons.mp h with rfl | h
      · exact ⟨n, _, rfl⟩
      · exact ih h
    | deepened d _ => exact ih h
    | rowMade items span => exact ih h
    | nodeMade n fields =>
      obtain ⟨m, q, made, state⟩ := rebuild_returns n fields _
      rw [made] at h
      exact ih (state ▸ h)

/-! ### Points between which nothing changes -/

/-- Between two points of a run all calls have kept their nodes and nothing was counted as a change. -/
structure Calm (p q : Progress (Logged σ)) : Prop where
  strays : q.strays = p.strays
  changes : q.stats.changes = p.stats.changes

/-- Between two points of a run a call has not kept its node and a change was counted. -/
structure Stirred (p q : Progress (Logged σ)) : Prop where
  strays : p.strays < q.strays
  changes : p.stats.changes < q.stats.changes

section Calm

variable {p q r : Progress (Logged σ)}

theorem Calm.refl (p : Progress (Logged σ)) : Calm p p := ⟨rfl, rfl⟩

theorem Calm.trans (h : Calm p q) (h' : Calm q r) : Calm p r :=
  ⟨h'.strays.trans h.strays, h'.changes.trans h.changes⟩

theorem Calm.stirred (h : Calm p q) (h' : Stirred q r) : Stirred p r :=
  ⟨h.strays ▸ h'.strays, h.changes ▸ h'.changes⟩

theorem Stirred.of_later (h : Stirred p q) (h' : Later q r) : Stirred p r :=
  ⟨Nat.lt_of_lt_of_le h.strays h'.strays, Nat.lt_of_lt_of_le h.changes h'.changes⟩

theorem Later.stirred (h : Later p q) (h' : Stirred q r) : Stirred p r :=
  ⟨Nat.lt_of_le_of_lt h.strays h'.strays, Nat.lt_of_le_of_lt h.changes h'.changes⟩

/-- Between points between which nothing changes all calls keep their nodes. -/
theorem Calm.kept (h : Calm p q) (hl : Later p q) : ∀ c ∈ callsBetween p q, c.kept = true := by
  have hc := hl.strays_eq
  rw [h.strays] at hc
  have hz : (callsBetween p q).countP (fun c => !c.kept) = 0 := by omega
  intro c hmem
  simpa using List.countP_eq_zero.mp hz c hmem

/-- Where something changes there is a call that has not kept its node. -/
theorem Stirred.not_kept (h : Stirred p q) (hl : Later p q) : ∃ c ∈ callsBetween p q, c.kept = false := by
  have hc := hl.strays_eq
  have := h.strays
  have hpos : 0 < (callsBetween p q).countP (fun c => !c.kept) := by omega
  obtain ⟨c, hmem, hk⟩ := List.countP_pos_iff.mp hpos
  exact ⟨c, hmem, by simpa using hk⟩

/-- Where nothing changes no counter of changes moves. -/
theorem Calm.stats (h : Calm p q) (hl : Later p q) : q.stats.replaced = p.stats.replaced ∧
    q.stats.removed = p.stats.removed ∧ q.stats.rebuilt = p.stats.rebuilt := by
  have hc := h.changes
  have := hl.replaced
  have := hl.removed
  have := hl.rebuilt
  unfold Stats.changes at hc
  omega

/-- Where something changes a counter of changes moves. -/
theorem Stirred.stats (h : Stirred p q) : ¬ (q.stats.replaced = p.stats.replaced ∧
    q.stats.removed = p.stats.removed ∧ q.stats.rebuilt = p.stats.rebuilt) := by
  have hc := h.changes
  unfold Stats.changes at hc
  omega

theorem Calm.of_kept {t : Transform σ} {n m : SharedNode} (h : (t n p.state.1).answer = .ok (some m))
    (hm : m.same n = true) : Calm p (p.heed n (t.recorded n p.state)) := by
  have hk : (t.call n p.state.1).kept = true := by simp [Transform.call, Transform.Call.kept, h, hm]
  have ha : (t.recorded n p.state).answer = .ok (some m) := h
  constructor
  · simp [Progress.strays, Transform.recorded_state, hk]
  · simp [Progress.heed, Stats.heed, Stats.changes, ha, hm]

theorem Stirred.of_not_kept {t : Transform σ} {n : SharedNode} {answer : Option SharedNode}
    (h : (t n p.state.1).answer = .ok answer) (hm : ∀ m, answer = some m → m.same n = false) :
    Stirred p (p.heed n (t.recorded n p.state)) := by
  have ha : (t.recorded n p.state).answer = .ok answer := h
  cases answer with
  | none =>
    have hk : (t.call n p.state.1).kept = false := by simp [Transform.call, Transform.Call.kept, h]
    constructor
    · simp [Progress.strays, Transform.recorded_state, hk]
    · simp only [Progress.heed, Stats.heed, Stats.changes, ha]
      omega
  | some m =>
    have hk : (t.call n p.state.1).kept = false := by simp [Transform.call, Transform.Call.kept, h, hm m rfl]
    constructor
    · simp [Progress.strays, Transform.recorded_state, hk]
    · simp only [Progress.heed, Stats.heed, Stats.changes, ha, hm m rfl, Bool.false_eq_true, if_false]
      omega

end Calm

/-! ### Runs without a record -/

def Progress.bare (p : Progress (Logged σ)) : Progress σ := ⟨p.state.1, p.stats, p.supply, p.trace⟩

/-- What a computation comes to when the record is dropped in the end. -/
def bareResult {α : Type} :
    EStateM.Result Halt (Progress (Logged σ)) α → EStateM.Result Halt (Progress σ) α
  | .ok a p => .ok a p.bare
  | .error e p => .error e p.bare

def Report.bare {α : Type} (r : Report (Logged σ) α) : Report σ α :=
  ⟨r.outcome, r.state.1, r.runner, r.events, r.stats, r.supply⟩

/-- The second computation does what the first one does, without a record. -/
def Bares {α : Type} (x : Run (Logged σ) α) (y : Run σ α) : Prop := ∀ p, y p.bare = bareResult (x p)

section Bares

variable {α β : Type}

theorem Bares.bind {x : Run (Logged σ) α} {y : Run σ α} {f : α → Run (Logged σ) β}
    {g : α → Run σ β} (hx : Bares x y) (hf : ∀ a, Bares (f a) (g a)) : Bares (x >>= f) (y >>= g) := by
  intro p
  have first := hx p
  cases h : x p with
  | ok a q =>
    rw [h] at first
    rw [bind_of_ok h, bind_of_ok first]
    exact hf a q
  | error e q =>
    rw [h] at first
    rw [bind_of_error h, bind_of_error first]
    rfl

private theorem bares_congruence :
    Congruence fun {α : Type} (x : Run (Logged σ) α) (y : Run σ α) => Bares x y where
  pure _ := fun _ => rfl
  fail _ := fun _ => rfl
  row _ _ := fun _ => rfl
  bind := .bind

private theorem rebuild_bares (n : SharedNode) (fields : Fields SharedNode SharedRow n.kind.slots) :
    Bares (rebuild n fields : Run (Logged σ) SharedNode) (rebuild n fields) := by
  intro p
  cases h : n.fields.same fields with
  | true =>
    rw [rebuild_same h, rebuild_same h]
    rfl
  | false =>
    rw [rebuild_changed h, rebuild_changed h]
    rfl

variable {t : Transform σ}

private theorem visitWith_bares {below : SharedNode → Run (Logged σ) SharedNode}
    {below' : SharedNode → Run σ SharedNode} (hb : ∀ n, Bares (below n) (below' n)) (n : SharedNode) :
    Bares (visitWith t.recorded below n) (visitWith t below' n) := by
  intro p
  cases h : (t n p.state.1).answer with
  | error message =>
    have recorded : (t.recorded n p.state).answer = .error message := h
    rw [visitWith_crashed (p := p.bare) h, visitWith_crashed recorded]
    rfl
  | ok answer =>
    have recorded : (t.recorded n p.state).answer = .ok answer := h
    cases answer with
    | none =>
      rw [visitWith_none (p := p.bare) h, visitWith_none recorded]
      rfl
    | some m =>
      rw [visitWith_some (p := p.bare) h, visitWith_some recorded]
      have goes_on := (hb m).bind fun m' => bares_congruence.pure (some m')
      exact goes_on (p.heed n (t.recorded n p.state))

private theorem descend_bares (limit budget : Nat) (n : SharedNode) :
    Bares (descend t.recorded limit budget n) (descend t limit budget n) := by
  induction budget generalizing n with
  | zero => exact fun _ => rfl
  | succ budget ih =>
    intro p
    cases h : n.kind.isTerminal with
    | true =>
      rw [descend_terminal _ _ _ _ h, descend_terminal _ _ _ _ h]
      rfl
    | false =>
      rw [descend_inner _ _ _ _ h, descend_inner _ _ _ _ h]
      have visits : ∀ c, Bares (visit t.recorded limit budget c) (visit t limit budget c) := visitWith_bares ih
      have fields := bares_congruence.visitFields visits n.kind n.fields
      exact (fields.bind (rebuild_bares n)) (p.deepen (limit - budget))

private theorem Op.run_bares (limit budget : Nat) (op : Op) :
    Bares (op.run t.recorded limit budget) (op.run t limit budget) := by
  have visits : ∀ n, Bares (Pass.visit t.recorded limit budget n) (Pass.visit t limit budget n) :=
    visitWith_bares (descend_bares limit budget)
  cases op with
  | descend n => exact descend_bares limit budget n
  | visit n =>
    cases n with
    | none => exact fun _ => rfl
    | some n => exact visits n
  | visitRow r => exact bares_congruence.visitRowWith visits r

/-- A run is not changed by a record of its calls. -/
theorem Runner.perform_recorded (r : Runner) (region : Nat) (op : Op) (s : σ) (calls : List (Call σ)) :
    (r.perform region t.recorded op (s, calls)).bare = r.perform region t op s := by
  rw [Runner.perform_eq, Runner.perform_eq]
  have same := Op.run_bares (t := t) r.options.limit r.options.limit op (.start region op.entry (s, calls))
  have start : (Progress.start region op.entry (s, calls)).bare = .start region op.entry s := rfl
  rw [start] at same
  rw [same]
  cases op.run t.recorded r.options.limit r.options.limit (.start region op.entry (s, calls)) with
  | ok a p => rfl
  | error e p =>
    cases e with
    | failed e => rfl
    | crashed message => rfl

end Bares

end SharedTree.Pass
