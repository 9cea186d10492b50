import SharedTree.Proofs.Passage
import Mathlib.Tactic.TFAE

/-!
# Exact sharing

An operation of a pass gives back the very thing that it was given, or something with another handle. Which of the two
it is can be told from the calls of the transform and from the counters alone.

* `descend_shares` and its companions: for each operation, inside any run, either everything is as it was or there is
  something new, a call that did not keep its node and a change that was counted.
* `Runner.perform_shares_exactly` states this for every operation that takes place in a run of a runner.
-/

namespace SharedTree

theorem Row.not_same_of_region {region : Nat} {r q : SharedRow} (hr : r.handle.region ≠ region)
    (hq : q.handle.region = region) : r.same q = false := by
  simp only [Row.same, beq_eq_false_iff_ne, ne_eq]
  exact fun h => hr (h ▸ hq)

/-- A node that a pass has made is not the same as one that was there before. -/
theorem Node.not_same_of_region {region : Nat} {m n : SharedNode} (hm : m.handle.region = region)
    (hn : n.handle.region ≠ region) : m.same n = false := by
  simp only [Node.same, beq_eq_false_iff_ne, ne_eq]
  exact fun h => hn (h ▸ hm)

theorem Child.same_self {a : Arity} (c : Child SharedNode SharedRow a) : c.same c = true := by
  cases c with
  | one n => exact n.same_self
  | opt n => cases n with
    | none => rfl
    | some n => exact n.same_self
  | row r => exact r.same_self
  | optRow r => cases r with
    | none => rfl
    | some r => exact r.same_self

theorem Fields.same_self {ss : List Slot} (fs : Fields SharedNode SharedRow ss) : fs.same fs = true := by
  induction fs with
  | nil => rfl
  | cons c rest ih => rw [Fields.same, c.same_self, ih, Bool.and_self]

namespace Pass

open Transform (Call)

variable {σ α β : Type}

/-! ### Passages -/

section Passage

variable {region : Nat} {visit : SharedNode → Run (Logged σ) (Option SharedNode)} {p q : Progress (Logged σ)}

/-- A list of elements is made anew exactly if something has changed on the passage. -/
private theorem ItemsPassage.shares {items : List SharedNode} {changed : Option (List SharedNode)}
    (h : ItemsPassage region visit p items changed q) :
    (changed = none ∧ Calm p q) ∨ (changed ≠ none ∧ Stirred p q) := by
  induction h with
  | nil p => exact .inl ⟨rfl, .refl p⟩
  | @cons _ _ _ n rest answer changed first others ih =>
    rcases first.shares with ⟨rfl, calm⟩ | ⟨new, stirred⟩
    · rcases ih with ⟨rfl, calm'⟩ | ⟨hsome, stirred⟩
      · exact .inl ⟨by simp [rejoin, Node.same_self], calm.trans calm'⟩
      · obtain ⟨items, rfl⟩ := Option.ne_none_iff_exists'.mp hsome
        exact .inr ⟨by simp [rejoin], calm.stirred stirred⟩
    · refine .inr ⟨?_, stirred.of_later others.later⟩
      cases answer with
      | none => simp [rejoin]
      | some m => cases changed <;> simp [rejoin, new m rfl]

private theorem RowPassage.shares {r r' : SharedRow} (h : RowPassage region visit p r r' q) :
    (r' = r ∧ Calm p q) ∨ (r'.handle.region = region ∧ Stirred p q) := by
  cases h with
  | kept _ visits =>
    rcases visits.shares with ⟨-, calm⟩ | ⟨some, -⟩
    · exact .inl ⟨rfl, calm⟩
    · exact absurd rfl some
  | made _ here visits =>
    rcases visits.shares with ⟨none, -⟩ | ⟨-, stirred⟩
    · cases none
    · exact .inr ⟨here, stirred.strays, stirred.changes⟩

private theorem RowPassage.same_or_new {r r' : SharedRow} (h : RowPassage region visit p r r' q) :
    (r' = r ∧ Calm p q) ∨ (r.same r' = false ∧ Stirred p q) := by
  have avoid : r.Avoids region := by cases h <;> assumption
  exact h.shares.imp_right fun ⟨new, stirred⟩ => ⟨Row.not_same_of_region avoid.1 new, stirred⟩

private theorem ChildPassage.shares {a : Arity} {c d : Child SharedNode SharedRow a}
    (h : ChildPassage region visit p c d q) : (d = c ∧ Calm p q) ∨ (c.same d = false ∧ Stirred p q) := by
  have changed {n m : SharedNode} (new : ∀ k, some m = some k → k.same n = false) : n.same m = false :=
    (n.same_comm m).trans (new m rfl)
  cases h with
  | one v =>
    rcases v.shares with ⟨same, calm⟩ | ⟨new, stirred⟩
    · exact .inl ⟨congrArg Child.one (Option.some.inj same), calm⟩
    · exact .inr ⟨changed new, stirred⟩
  | absent | noRow => exact .inl ⟨rfl, .refl p⟩
  | @opt _ n answer v =>
    rcases v.shares with ⟨rfl, calm⟩ | ⟨new, stirred⟩
    · exact .inl ⟨rfl, calm⟩
    · refine .inr ⟨?_, stirred⟩
      cases answer with
      | none => rfl
      | some m => exact changed new
  | row passage => exact passage.same_or_new.imp_left fun ⟨same, calm⟩ => ⟨congrArg Child.row same, calm⟩
  | optRow passage =>
    exact passage.same_or_new.imp_left fun ⟨same, calm⟩ => ⟨congrArg (fun r => Child.optRow (some r)) same, calm⟩

private theorem FieldsPassage.shares {ss : List Slot} {fs gs : Fields SharedNode SharedRow ss}
    (h : FieldsPassage region visit p fs gs q) : (gs = fs ∧ Calm p q) ∨ (fs.same gs = false ∧ Stirred p q) := by
  induction h with
  | nil p => exact .inl ⟨rfl, .refl p⟩
  | @cons _ _ _ s ss c d cs ds first others ih =>
    rcases first.shares with ⟨rfl, calm⟩ | ⟨new, stirred⟩
    · rcases ih with ⟨rfl, calm'⟩ | ⟨new, stirred⟩
      · exact .inl ⟨rfl, calm.trans calm'⟩
      · refine .inr ⟨?_, calm.stirred stirred⟩
        show (d.same d && cs.same ds) = false
        rw [new, Bool.and_false]
    · refine .inr ⟨?_, stirred.of_later others.later⟩
      show (c.same d && cs.same ds) = false
      rw [new, Bool.false_and]

end Passage

section Traversal

variable {region : Nat} {t : Transform σ} {limit : Nat} {visit : SharedNode → Run (Logged σ) (Option SharedNode)}
  (hv : ∀ n, Moves t.recorded limit (visit n))
  (hs : ∀ n : SharedNode, n.Avoids region →
    Shares region (visit n) (· = some n) (fun a => ∀ m, a = some m → m.same n = false))

include hv hs

private theorem visitRowWith_shares (r : SharedRow) (ha : r.Avoids region) :
    Shares region (visitRowWith visit r) (· = r) (·.handle.region = region) :=
  fun _ _ _ hp h hl => (visitRowWith_passage hv hs hp ha h hl).shares

/-- The slots hold what they held before, or something has changed. -/
theorem visitFields_shares (parent : Kind) {ss : List Slot} (fs : Fields SharedNode SharedRow ss)
    (ha : fs.Avoids region) :
    Shares region (visitFields visit parent fs) (· = fs) (fun gs => fs.same gs = false) :=
  fun _ _ _ hp h hl => (visitFields_passage hv hs hp ha h hl).shares

end Traversal

section Operation

variable {region : Nat} {t : Transform σ} {limit : Nat}

/-- What a visit that succeeds has done: the transform has removed the node, or the descent has gone on below an answer.
Of the answer is known what the calls owe. -/
theorem visitWith_of_ok {below : SharedNode → Run (Logged σ) SharedNode} (hb : ∀ n, Moves t.recorded limit (below n))
    {n : SharedNode} {p q : Progress (Logged σ)} {a : Option SharedNode}
    (h : visitWith t.recorded below n p = .ok a q) (hl : q.Lawful region) :
    ((t n p.state.1).answer = .ok none ∧ a = none ∧ q = p.heed n (t.recorded n p.state)) ∨
      ∃ m m', (t n p.state.1).answer = .ok (some m) ∧ (m.Avoids region ∧ (m.same n = true → m = n)) ∧ a = some m' ∧
        below m (p.heed n (t.recorded n p.state)) = .ok m' q := by
  cases hr : (t n p.state.1).answer with
  | error message =>
    rw [visitWith_crashed hr] at h
    cases h
  | ok answer =>
    cases answer with
    | none =>
      rw [visitWith_none hr] at h
      cases h
      exact .inl ⟨rfl, rfl, rfl⟩
    | some m =>
      rw [visitWith_some hr] at h
      obtain ⟨m', q₁, h₁, h⟩ := bind_eq_ok h
      cases h
      have later : Later (p.heed n (t.recorded n p.state)) q := .of_moves (hb m) h₁
      have lawful : (t.call n p.state.1).Lawful region :=
        hl.of_later later _ (by simp [Transform.recorded_state])
      exact .inr ⟨m, m', rfl, lawful m hr, rfl, h₁⟩

private theorem visitWith_shares {below : SharedNode → Run (Logged σ) SharedNode}
    (hb : ∀ n, Moves t.recorded limit (below n))
    (hs : ∀ n : SharedNode, n.Avoids region → Shares region (below n) (· = n) (·.handle.region = region))
    (n : SharedNode) (ha : n.Avoids region) :
    Shares region (visitWith t.recorded below n) (· = some n) (fun a => ∀ m, a = some m → m.same n = false) := by
  intro p a q hp h hl
  rcases visitWith_of_ok hb h hl with ⟨removed, rfl, rfl⟩ | ⟨m, m', answered, ⟨avoid, determined⟩, rfl, h'⟩
  · exact .inr ⟨nofun, .of_not_kept removed nofun⟩
  have later : Later (p.heed n (t.recorded n p.state)) q := .of_moves (hb m) h'
  -- the answer is the node or not, and what the descent gives back is the answer or not
  rcases hs m avoid (p.heed n (t.recorded n p.state)) m' q hp h' hl with ⟨rfl, calm⟩ | ⟨new, stirred⟩
  · by_cases hm : m'.same n = true
    · exact .inl ⟨by rw [determined hm], (Calm.of_kept answered hm).trans calm⟩
    · have hm' : ∀ k, some m' = some k → k.same n = false := by
        rintro k ⟨rfl⟩
        exact Bool.not_eq_true _ ▸ hm
      exact .inr ⟨hm', (Stirred.of_not_kept answered hm').of_later later⟩
  · refine .inr ⟨?_, (Later.of_step (Step.asked n : Step t.recorded limit _ _)).stirred stirred⟩
    rintro k ⟨rfl⟩
    exact Node.not_same_of_region new (Node.avoids_iff.mp ha).1

/-- The progress after a node has been made anew. -/
def Progress.remade (p : Progress σ) : Progress σ :=
  { p with
    supply := { p.supply with nodes := p.supply.nodes + 1 }
    stats := { p.stats with rebuilt := p.stats.rebuilt + 1 } }

/-- What a descent that opens a level and succeeds has done, if the descents below share: it has visited the slots.
Either nothing has changed and the node comes back, or something has changed and the node is made anew. -/
private theorem level_of_ok {budget : Nat}
    (hs : ∀ n : SharedNode, n.Avoids region →
      Shares region (descend t.recorded limit budget n) (· = n) (·.handle.region = region))
    {n m : SharedNode} (ha : n.Avoids region) (hn : n.kind.isTerminal = false) {p q : Progress (Logged σ)}
    (hp : p.supply.region = region) (h : descend t.recorded limit (budget + 1) n p = .ok m q) (hl : q.Lawful region) :
    ∃ fs q₁,
      FieldsPassage region (visit t.recorded limit budget) (p.deepen (limit - budget)) n.fields fs q₁ ∧
      ((fs = n.fields ∧ m = n ∧ q = q₁ ∧ Calm p q) ∨
        (n.fields.same fs = false ∧ m = q₁.renewed n fs ∧ q = q₁.remade ∧ q₁.supply.region = region ∧
          Stirred p q)) := by
  rw [descend_inner t.recorded limit budget p hn] at h
  obtain ⟨fs, q₁, h₁, h⟩ := bind_eq_ok h
  obtain ⟨hregion, hfields⟩ := Node.avoids_iff.mp ha
  have later : Later q₁ q := .of_moves (rebuild_moves n fs : Moves t.recorded limit _) h
  have hl₁ : q₁.Lawful region := hl.of_later later
  have start : (p.deepen (limit - budget)).supply.region = region := hp
  have passage := visitFields_passage (visit_moves budget) (visitWith_shares (descend_moves budget) hs) start hfields
    h₁ hl₁
  have opened : Calm p (p.deepen (limit - budget)) := ⟨rfl, rfl⟩
  refine ⟨fs, q₁, passage, ?_⟩
  rcases passage.shares with ⟨rfl, calm⟩ | ⟨new, stirred⟩
  · rw [rebuild_same n.fields.same_self] at h
    cases h
    exact .inl ⟨rfl, rfl, rfl, opened.trans calm⟩
  · have hq : q₁.supply.region = region := passage.later.region.trans start
    rw [rebuild_renewed new (hq ▸ hregion)] at h
    cases h
    exact .inr ⟨new, rfl, rfl, hq, (opened.stirred stirred).of_later later⟩

/-- The descent below a node gives back the node, or one with a new handle. -/
theorem descend_shares (budget : Nat) (n : SharedNode) (ha : n.Avoids region) :
    Shares region (descend t.recorded limit budget n) (· = n) (·.handle.region = region) := by
  induction budget generalizing n with
  | zero =>
    intro p a q _ h _
    cases h
  | succ budget ih =>
    intro p a q hp h hl
    cases hn : n.kind.isTerminal with
    | true =>
      rw [descend_terminal t.recorded limit budget p hn] at h
      cases h
      exact .inl ⟨rfl, rfl, rfl⟩
    | false =>
      obtain ⟨fs, q₁, -, ⟨-, rfl, -, calm⟩ | ⟨-, rfl, -, here, stirred⟩⟩ := level_of_ok ih ha hn hp h hl
      · exact .inl ⟨rfl, calm⟩
      · exact .inr ⟨here, stirred⟩

/-- What a descent that opens a level and succeeds has done: it has visited the slots. If they hold what they held
before, the node comes back and nothing more has happened. Otherwise the node is made anew. -/
theorem descend_turns {budget : Nat} {n m : SharedNode} (ha : n.Avoids region) (hn : n.kind.isTerminal = false)
    {p q : Progress (Logged σ)} (hp : p.supply.region = region)
    (h : descend t.recorded limit (budget + 1) n p = .ok m q) (hl : q.Lawful region) :
    ∃ fs q₁,
      FieldsPassage region (visit t.recorded limit budget) (p.deepen (limit - budget)) n.fields fs q₁ ∧
      ((fs = n.fields ∧ m = n ∧ q = q₁) ∨ (n.fields.same fs = false ∧ m = q₁.renewed n fs ∧ q = q₁.remade)) := by
  obtain ⟨fs, q₁, passage, ⟨same, kept, ends, -⟩ | ⟨new, made, ends, -⟩⟩ :=
    level_of_ok (descend_shares budget) ha hn hp h hl
  · exact ⟨fs, q₁, passage, .inl ⟨same, kept, ends⟩⟩
  · exact ⟨fs, q₁, passage, .inr ⟨new, made, ends⟩⟩

/-- In either case the node comes back with what is in the slots after the visits. -/
theorem descend_of_ok {budget : Nat} {n m : SharedNode} (ha : n.Avoids region) (hn : n.kind.isTerminal = false)
    {p q : Progress (Logged σ)} (hp : p.supply.region = region)
    (h : descend t.recorded limit (budget + 1) n p = .ok m q) (hl : q.Lawful region) :
    ∃ g fs q₁, m = .mk g n.span n.flags n.kind n.payload fs ∧ q.state = q₁.state ∧
      q.stats = { q₁.stats with rebuilt := q.stats.rebuilt } ∧
      FieldsPassage region (visit t.recorded limit budget) (p.deepen (limit - budget)) n.fields fs q₁ := by
  obtain ⟨fs, q₁, passage, ⟨rfl, rfl, rfl⟩ | ⟨-, rfl, rfl⟩⟩ := descend_turns ha hn hp h hl
  · exact ⟨m.handle, m.fields, q, by cases m; rfl, rfl, rfl, passage⟩
  · exact ⟨_, fs, q₁, rfl, rfl, rfl, passage⟩

theorem visit_shares (budget : Nat) (n : SharedNode) (ha : n.Avoids region) :
    Shares region (visit t.recorded limit budget n) (· = some n) (fun a => ∀ m, a = some m → m.same n = false) :=
  visitWith_shares (descend_moves budget) (descend_shares budget) n ha

/-- What an operation comes back with is something new: a node or a row that the pass has made or, when a node was to
be visited, no node or another one. -/
def Op.Renewed (region : Nat) : (op : Op) → op.Result → Prop
  | .descend _, m => m.handle.region = region
  | .visit n, a => sameOpt Node.same a n = false
  | .visitRow _, q => q.handle.region = region

private theorem Op.same_input (op : Op) : op.same op.input = true := by
  cases op with
  | descend n => exact n.same_self
  | visit n =>
    cases n with
    | none => rfl
    | some n => exact n.same_self
  | visitRow r => exact r.same_self

private theorem Op.not_same_of_renewed {op : Op} (ha : op.Avoids region) {a : op.Result}
    (h : op.Renewed region a) : op.same a = false := by
  cases op with
  | descend n => exact Node.not_same_of_region h (Node.avoids_iff.mp ha).1
  | visit n => exact h
  | visitRow r =>
    show Row.same a r = false
    rw [Row.same_comm]
    exact Row.not_same_of_region ha.1 h

/-- Every operation gives back what it was given or something new, and then there is a call and a counter to tell. -/
theorem Op.run_shares (budget : Nat) (op : Op) (ha : op.Avoids region) :
    Shares region (op.run t.recorded limit budget) (· = op.input) (op.Renewed region) := by
  cases op with
  | descend n => exact descend_shares budget n ha
  | visit n =>
    cases n with
    | none =>
      intro p a q _ h _
      cases h
      exact .inl ⟨rfl, .refl p⟩
    | some n =>
      intro p a q hp h hl
      rcases visit_shares budget n (ha n rfl) p a q hp h hl with ⟨same, calm⟩ | ⟨new, stirred⟩
      · exact .inl ⟨same, calm⟩
      · refine .inr ⟨?_, stirred⟩
        cases a with
        | none => rfl
        | some m => exact new m rfl
  | visitRow r => exact visitRowWith_shares (visit_moves budget) (visit_shares budget) r ha

end Operation

/-- An operation that succeeds at some point of a run shares exactly: its result is what went in if and only if all
calls on the way have kept their nodes, and if and only if no change was counted. -/
private theorem tfae_of_shares {region : Nat} {op : Op} {a : op.Result} {p q : Progress (Logged σ)}
    (ha : op.Avoids region) (hl : Later p q)
    (h : (a = op.input ∧ Calm p q) ∨ (op.Renewed region a ∧ Stirred p q)) :
    List.TFAE [op.same a = true, a = op.input, ∀ c ∈ callsBetween p q, c.kept = true,
      q.stats.replaced = p.stats.replaced ∧ q.stats.removed = p.stats.removed ∧
        q.stats.rebuilt = p.stats.rebuilt] ∧
      ((∃ c ∈ callsBetween p q, c.kept = false) → op.Renewed region a) := by
  rcases h with ⟨rfl, calm⟩ | ⟨new, stirred⟩
  · have kept := calm.kept hl
    have stats := calm.stats hl
    refine ⟨?_, ?_⟩
    · tfae_have 1 → 2 := fun _ => rfl
      tfae_have 2 → 3 := fun _ => kept
      tfae_have 3 → 4 := fun _ => stats
      tfae_have 4 → 1 := fun _ => op.same_input
      tfae_finish
    · rintro ⟨c, hc, hk⟩
      rw [kept c hc] at hk
      cases hk
  · have different := Op.not_same_of_renewed ha new
    obtain ⟨c, hc, hk⟩ := stirred.not_kept hl
    refine ⟨?_, fun _ => new⟩
    tfae_have 1 → 2 := fun h => absurd h (by rw [different]; exact Bool.false_ne_true)
    tfae_have 2 → 3 := by
      rintro rfl
      rw [op.same_input] at different
      cases different
    tfae_have 3 → 4 := fun h => absurd (h c hc) (by rw [hk]; exact Bool.false_ne_true)
    tfae_have 4 → 1 := fun h => absurd h stirred.stats
    tfae_finish

/-- Sharing is exact. Whenever an operation succeeds, at the root of a run or anywhere inside it, these are the same:
the result has the handle of what went in, it is what went in, all calls of the operation have kept their nodes, and
none of the counters of changes has moved. If a call has not kept its node, the node or the row is made anew. For the
run as a whole, the counters tell by themselves. -/
theorem Runner.perform_shares_exactly (r : Runner) (region : Nat) (t : Transform σ) (op : Op) (s : σ)
    (ha : op.Avoids region)
    (hl : ∀ c ∈ (r.perform region t.recorded op (s, [])).state.2, c.Lawful region) :
    (∀ m ∈ r.moments region t.recorded op (s, []), ∀ a q, m.run t.recorded r.options.limit = .ok a q →
      List.TFAE [m.op.same a = true, a = m.op.input, ∀ c ∈ callsBetween m.progress q, c.kept = true,
        q.stats.replaced = m.progress.stats.replaced ∧ q.stats.removed = m.progress.stats.removed ∧
          q.stats.rebuilt = m.progress.stats.rebuilt] ∧
        ((∃ c ∈ callsBetween m.progress q, c.kept = false) → m.op.Renewed region a)) ∧
    ∀ a, (r.perform region t.recorded op (s, [])).outcome = .ok a →
      List.TFAE [op.same a = true, a = op.input,
        ∀ c ∈ (r.perform region t.recorded op (s, [])).state.2, c.kept = true,
        (r.perform region t.recorded op (s, [])).stats.isUnchanged = true] := by
  let start : Progress (Logged σ) := .start region op.entry (s, [])
  have hend : (after (op.run t.recorded r.options.limit r.options.limit start)).Lawful region := by
    rwa [Runner.perform_eq, Runner.conclude_state] at hl
  constructor
  · intro m hm a q h
    have within : Within t.recorded r.options.limit ⟨[], .root, op, start⟩ m := op.within_of_mem_moments start m hm
    have hback : Later q (after (op.run t.recorded r.options.limit r.options.limit start)) := by
      have := Later.of_reaches (Within.back within)
      rwa [h] at this
    have avoids : m.op.Avoids region := Op.avoids_of_within within ha hend
    have hregion : m.progress.supply.region = region := (Later.of_reaches (Within.reaches within)).region
    have later : Later m.progress q := .of_moves (Op.run_moves _ m.op) h
    exact tfae_of_shares avoids later (m.op.run_shares _ avoids m.progress a q hregion h (hend.of_later hback))
  · intro a h
    rw [Runner.perform_eq, Runner.conclude_outcome] at h
    have hrun := outcome_eq_ok h
    rw [Runner.perform_eq, Runner.conclude_state, Runner.conclude_stats]
    have later : Later start _ := .of_moves (Op.run_moves _ op) hrun
    have tfae := (tfae_of_shares ha later (op.run_shares _ ha start a _ rfl hrun hend)).1
    have calls : callsBetween start (after (op.run t.recorded r.options.limit r.options.limit start)) =
        (after (op.run t.recorded r.options.limit r.options.limit start)).state.2 := List.take_length
    have unchanged (q : Stats) : q.isUnchanged = true ↔ q.replaced = start.stats.replaced ∧
        q.removed = start.stats.removed ∧ q.rebuilt = start.stats.rebuilt := by
      simp [Stats.isUnchanged, start, Progress.start, and_assoc]
    rw [calls] at tfae
    rw [unchanged]
    exact tfae

/-- The visit of a twig in which a leaf is replaced counts changes and does not give back the twig. -/
theorem Runner.perform_shares_exactly_grafted : Sample.grafted.stats.isUnchanged = false ∧
    ∀ a, Sample.grafted.outcome = .ok a → a ≠ some Sample.twig := by
  have changed : Sample.grafted.stats.isUnchanged = false := by decide
  refine ⟨changed, fun a h same => ?_⟩
  have tfae := (Runner.perform_shares_exactly Sample.runner 1 (Transform.swapping 1 (some (Sample.leaf ⟨2, 0⟩)))
    (.visit (some Sample.twig)) 0 Sample.grafted_avoids Sample.grafted_lawful).2 a h
  have unchanged : Sample.grafted.stats.isUnchanged = true := (tfae.out 1 3).mp same
  rw [changed] at unchanged
  cases unchanged

end Pass

end SharedTree
