import SharedTree.Proofs.Balance
import SharedTree.Proofs.Building

/-!
# Where handles come from

A pass makes up no handles. Every node and every row of a tree that comes back was in the tree that went in, or in an
answer of the transform, or the pass has drawn its handle.

* `Origin` says this of a single handle at a point of a run, and `Progress.Knows` of all handles of a tree.
* Both are kept as a run goes on (`Origin.later`), so that what was known of a child once need not be shown again.
* `descend_known` is the induction over the levels, and `Op.run_known` the statement for every operation.
-/

namespace SharedTree.Pass

open Transform (Call)

variable {σ : Type}

/-! ### Handles that were drawn -/

private theorem Step.drawn {t : Transform σ} {limit : Nat} {p q : Progress σ} (h : Step t limit p q) :
    p.supply.nodes ≤ q.supply.nodes ∧ p.supply.rows ≤ q.supply.rows := by
  cases h with
  | asked n => exact ⟨Nat.le_refl _, Nat.le_refl _⟩
  | deepened d _ => exact ⟨Nat.le_refl _, Nat.le_refl _⟩
  | rowMade items span => exact ⟨Nat.le_refl _, Nat.le_succ _⟩
  | nodeMade n fields =>
    obtain ⟨m, nodes, rebuilt, made, grows, -⟩ := rebuild_frame n fields p
    rw [made]
    exact ⟨grows, Nat.le_refl _⟩

/-- Handles are drawn in order, and no number is given back. -/
theorem Reaches.drawn {t : Transform σ} {limit : Nat} {p q : Progress σ} (h : Reaches t limit p q) :
    p.supply.nodes ≤ q.supply.nodes ∧ p.supply.rows ≤ q.supply.rows := by
  induction h with
  | refl => exact ⟨Nat.le_refl _, Nat.le_refl _⟩
  | tail _ step ih => exact ⟨Nat.le_trans ih.1 step.drawn.1, Nat.le_trans ih.2 step.drawn.2⟩

/-- What a later point of a run has in common with an earlier one as far as handles are concerned. -/
structure Extends (p q : Progress (Logged σ)) : Prop where
  record : p.state.2 <:+ q.state.2
  region : q.supply.region = p.supply.region
  nodes : p.supply.nodes ≤ q.supply.nodes
  rows : p.supply.rows ≤ q.supply.rows

section Extends

variable {p q r : Progress (Logged σ)}

theorem Extends.refl (p : Progress (Logged σ)) : Extends p p :=
  ⟨List.suffix_rfl, rfl, Nat.le_refl _, Nat.le_refl _⟩

theorem Extends.trans (h : Extends p q) (h' : Extends q r) : Extends p r :=
  ⟨h.record.trans h'.record, h'.region.trans h.region, Nat.le_trans h.nodes h'.nodes, Nat.le_trans h.rows h'.rows⟩

theorem Extends.of_reaches {t : Transform σ} {limit : Nat} (h : Reaches t.recorded limit p q) : Extends p q :=
  ⟨(Later.of_reaches h).record, (Later.of_reaches h).region, (Reaches.drawn h).1, (Reaches.drawn h).2⟩

theorem Extends.of_moves {α : Type} {t : Transform σ} {limit : Nat} {x : Run (Logged σ) α} {a : α}
    (hx : Moves t.recorded limit x) (h : x p = .ok a q) : Extends p q := by
  have moved := hx p
  rw [h] at moved
  exact .of_reaches moved

end Extends

/-! ### The origin of a handle -/

/-- A handle is one of some given ones, or it occurs in an answer of the transform, or it is one of those that were
drawn in a region. Which handles of an answer count is up to `handles`. -/
inductive Origin (given : List Handle) (handles : SharedNode → List Handle) (calls : List (Call σ)) (region drawn : Nat)
    (h : Handle) : Prop
  | given (mem : h ∈ given)
  | answered {c : Call σ} {m : SharedNode} (call : c ∈ calls) (answer : c.answer = .ok (some m)) (mem : h ∈ handles m)
  | drawn (here : h.region = region) (before : h.serial < drawn)

theorem Origin.mono {given : List Handle} {handles : SharedNode → List Handle} {calls calls' : List (Call σ)}
    {region drawn drawn' : Nat} {h : Handle} (origin : Origin given handles calls region drawn h)
    (hc : calls <:+ calls') (hd : drawn ≤ drawn') : Origin given handles calls' region drawn' h := by
  cases origin with
  | given mem => exact .given mem
  | answered call answer mem => exact .answered (hc.mem call) answer mem
  | drawn here before => exact .drawn here (Nat.lt_of_lt_of_le before hd)

section Known

-- the handles of nodes and of rows that are given when a run begins
variable (nodes rows : List Handle)

def Progress.KnowsNode (p : Progress (Logged σ)) (h : Handle) : Prop :=
  Origin nodes Node.nodeHandles p.state.2 p.supply.region p.supply.nodes h

def Progress.KnowsRow (p : Progress (Logged σ)) (h : Handle) : Prop :=
  Origin rows Node.rowHandles p.state.2 p.supply.region p.supply.rows h

/-- All handles of a tree have an origin at a point of a run. -/
structure Progress.Knows (p : Progress (Logged σ)) (n : SharedNode) : Prop where
  nodes : ∀ h ∈ n.nodeHandles, p.KnowsNode nodes h
  rows : ∀ h ∈ n.rowHandles, p.KnowsRow rows h

variable {nodes rows} {p q : Progress (Logged σ)} {n m : SharedNode}

theorem Progress.KnowsNode.later {h : Handle} (known : p.KnowsNode nodes h) (ext : Extends p q) :
    q.KnowsNode nodes h := by
  unfold KnowsNode
  rw [ext.region]
  exact Origin.mono known ext.record ext.nodes

theorem Progress.KnowsRow.later {h : Handle} (known : p.KnowsRow rows h) (ext : Extends p q) : q.KnowsRow rows h := by
  unfold KnowsRow
  rw [ext.region]
  exact Origin.mono known ext.record ext.rows

theorem Progress.Knows.later (known : p.Knows nodes rows n) (ext : Extends p q) : q.Knows nodes rows n :=
  ⟨fun h hh => (known.nodes h hh).later ext, fun h hh => (known.rows h hh).later ext⟩

/-- Trees side by side are known if all handles in them are. -/
theorem Progress.forall_knows_iff {ns : List SharedNode} : (∀ n ∈ ns, p.Knows nodes rows n) ↔
    (∀ h ∈ ns.flatMap Node.nodeHandles, p.KnowsNode nodes h) ∧
      ∀ h ∈ ns.flatMap Node.rowHandles, p.KnowsRow rows h := by
  simp only [List.mem_flatMap]
  constructor
  · intro known
    constructor
    · rintro h ⟨n, hn, hh⟩
      exact (known n hn).nodes h hh
    · rintro h ⟨n, hn, hh⟩
      exact (known n hn).rows h hh
  · rintro ⟨hns, hrs⟩ n hn
    exact ⟨fun h hh => hns h ⟨n, hn, hh⟩, fun h hh => hrs h ⟨n, hn, hh⟩⟩

/-- A tree is known if its root, the rows in its slots and the trees in them are. -/
theorem Progress.knows_iff : p.Knows nodes rows n ↔ p.KnowsNode nodes n.handle ∧
    (∀ c ∈ n.fields.nodes, p.Knows nodes rows c) ∧ ∀ r ∈ n.fields.rows, p.KnowsRow rows r.handle := by
  rw [forall_knows_iff]
  constructor
  · rintro ⟨hn, hr⟩
    rw [Node.nodeHandles_eq, List.forall_mem_cons] at hn
    rw [Node.rowHandles_eq, List.forall_mem_append] at hr
    exact ⟨hn.1, ⟨hn.2, hr.2⟩, fun r mem => hr.1 _ (List.mem_map_of_mem mem)⟩
  · rintro ⟨root, ⟨hn, hr⟩, held⟩
    constructor
    · rw [Node.nodeHandles_eq, List.forall_mem_cons]
      exact ⟨root, hn⟩
    · rw [Node.rowHandles_eq, List.forall_mem_append, List.forall_mem_map]
      exact ⟨held, hr⟩

end Known

/-! ### Rows that come back -/

section Rows

variable {region : Nat} {visit : SharedNode → Run (Logged σ) (Option SharedNode)} {p q : Progress (Logged σ)}

/-- The handle of a row was there before or has been drawn since. -/
private def RowFrom (q : Progress (Logged σ)) (before : List SharedRow) (r : SharedRow) : Prop :=
  r ∈ before ∨ r.handle.region = q.supply.region ∧ r.handle.serial < q.supply.rows

private theorem RowFrom.later {before rs : List SharedRow} {r : SharedRow} (h : RowFrom p before r)
    (hsub : ∀ r ∈ before, r ∈ rs) (ext : Extends p q) : RowFrom q rs r := by
  rcases h with mem | ⟨here, drawn⟩
  · exact .inl (hsub r mem)
  · exact .inr ⟨here.trans ext.region.symm, Nat.lt_of_lt_of_le drawn ext.rows⟩

private theorem extends_additive : Additive fun (p q : Progress (Logged σ)) _ _ => Extends p q where
  nil := .refl
  append := .trans
  rowMade h := ⟨h.record, h.region, h.nodes, Nat.le_succ_of_le h.rows⟩

private theorem RowPassage.row_from {r r' : SharedRow} (h : RowPassage region visit p r r' q) : RowFrom q [r] r' := by
  cases h with
  | kept => exact .inl List.mem_cons_self
  | made => exact .inr ⟨rfl, Nat.lt_succ_self _⟩

private theorem ChildPassage.rows_from {a : Arity} {c d : Child SharedNode SharedRow a}
    (h : ChildPassage region visit p c d q) : ∀ r ∈ d.rows, RowFrom q c.rows r := by
  cases h with
  | one | absent | opt | noRow => exact fun r hr => absurd hr List.not_mem_nil
  | row passage | optRow passage =>
    intro r hr
    rw [List.mem_singleton.mp hr]
    exact passage.row_from

private theorem FieldsPassage.rows_from {t : Transform σ} {limit : Nat} (hv : ∀ n, Moves t.recorded limit (visit n))
    {ss : List Slot} {fs gs : Fields SharedNode SharedRow ss} (h : FieldsPassage region visit p fs gs q) :
    ∀ r ∈ gs.rows, RowFrom q fs.rows r := by
  induction h with
  | nil p => exact fun r hr => absurd hr List.not_mem_nil
  | @cons _ q r _ _ _ _ cs _ first others ih =>
    have ext : Extends q r := extends_additive.fields (fun v => .of_moves (hv _) v.run) others
    intro r hr
    rcases List.mem_append.mp hr with hr | hr
    · exact (first.rows_from r hr).later (fun r mem => List.mem_append_left cs.rows mem) ext
    · exact (ih r hr).later (fun r mem => List.mem_append_right _ mem) (.refl _)

end Rows

/-! ### What is known of what comes back -/

section Known

variable {nodes rows : List Handle} {p q : Progress (Logged σ)} {region : Nat} {t : Transform σ} {limit : Nat}

/-- Whenever the trees that go in are known, so are the trees that come out. -/
private def Preserves (nodes rows : List Handle) (p q : Progress (Logged σ)) (ns ms : List SharedNode) : Prop :=
  Extends p q ∧ ((∀ n ∈ ns, p.Knows nodes rows n) → ∀ m ∈ ms, q.Knows nodes rows m)

private theorem preserves_additive (nodes rows : List Handle) :
    Additive fun (p q : Progress (Logged σ)) ns ms => Preserves nodes rows p q ns ms where
  nil p := ⟨.refl p, fun _ _ h => absurd h List.not_mem_nil⟩
  append {p q r ns ms ns' ms'} first second := by
    refine ⟨first.1.trans second.1, fun known m hm => ?_⟩
    rw [List.forall_mem_append] at known
    rcases List.mem_append.mp hm with hm | hm
    · exact (first.2 known.1 m hm).later second.1
    · exact second.2 (fun n hn => (known.2 n hn).later first.1) m hm
  rowMade {p q ns ms} h := by
    have made : Extends q { q with supply := { q.supply with rows := q.supply.rows + 1 } } :=
      ⟨List.suffix_rfl, rfl, Nat.le_refl _, Nat.le_succ _⟩
    exact ⟨h.1.trans made, fun known m hm => (h.2 known m hm).later made⟩

private theorem visitWith_preserves {below : SharedNode → Run (Logged σ) SharedNode}
    (hb : ∀ n, Moves t.recorded limit (below n))
    (known : ∀ n : SharedNode, n.Avoids region → ∀ p m q, p.supply.region = region → below n p = .ok m q →
      q.Lawful region → p.Knows nodes rows n → q.Knows nodes rows m)
    {n : SharedNode} {a : Option SharedNode} (hp : p.supply.region = region)
    (h : visitWith t.recorded below n p = .ok a q) (hl : q.Lawful region) :
    Preserves nodes rows p q [n] a.toList := by
  refine ⟨.of_moves (visitWith_moves hb n) h, fun _ => ?_⟩
  rcases visitWith_of_ok hb h hl with ⟨-, rfl, -⟩ | ⟨m, m', answered, ⟨avoid, -⟩, rfl, h'⟩
  · exact fun m hm => absurd hm List.not_mem_nil
  · -- the answer is on record, and what is on record is known
    have call : t.call n p.state.1 ∈ (p.heed n (t.recorded n p.state)).state.2 := List.mem_cons_self
    have answer : (p.heed n (t.recorded n p.state)).Knows nodes rows m :=
      ⟨fun h hh => .answered call answered hh, fun h hh => .answered call answered hh⟩
    intro k hk
    obtain rfl := List.mem_singleton.mp hk
    exact known m avoid (p.heed n (t.recorded n p.state)) k q hp h' hl answer

private theorem descend_known (budget : Nat) {n m : SharedNode} (ha : n.Avoids region) (hp : p.supply.region = region)
    (h : descend t.recorded limit budget n p = .ok m q) (hl : q.Lawful region) (known : p.Knows nodes rows n) :
    q.Knows nodes rows m := by
  have ext : Extends p q := .of_moves (descend_moves budget n) h
  induction budget generalizing n p m q with
  | zero => cases h
  | succ budget ih =>
    cases hn : n.kind.isTerminal with
    | true =>
      rw [descend_terminal t.recorded limit budget p hn] at h
      cases h
      exact known.later ext
    | false =>
      obtain ⟨fs, q₁, passage, ⟨rfl, rfl, rfl⟩ | ⟨-, rfl, rfl⟩⟩ := descend_turns ha hn hp h hl
      · exact known.later ext
      have visits : ∀ {p c a q}, Visited region (visit t.recorded limit budget) p c a q →
          Preserves nodes rows p q [c] a.toList :=
        fun v => visitWith_preserves (descend_moves budget)
          (fun c hc p m q hp h hl known => ih hc hp h hl known (.of_moves (descend_moves budget c) h)) v.start v.run
          v.lawful
      obtain ⟨-, below, held⟩ := Progress.knows_iff.mp known
      have children := ((preserves_additive nodes rows).fields visits passage).2
      have opened : Extends p (p.deepen (limit - budget)) := ⟨List.suffix_rfl, rfl, Nat.le_refl _, Nat.le_refl _⟩
      have made : Extends q₁ q₁.remade := ⟨List.suffix_rfl, rfl, Nat.le_succ _, Nat.le_refl _⟩
      refine Progress.knows_iff.mpr ⟨.drawn rfl (Nat.lt_succ_self _), fun c hc => ?_, fun r hr => ?_⟩
      · exact (children (fun k hk => (below k hk).later opened) c hc).later made
      · rcases passage.rows_from (visit_moves budget) r hr with mem | ⟨here, drawn⟩
        · exact (held r mem).later ext
        · exact .drawn here drawn

end Known

/-! ### Handles of operands and results -/

/-- The handles of all nodes of what an operation is given or comes back with. -/
def Op.nodeHandles : (op : Op) → op.Result → List Handle
  | .descend _, m => m.nodeHandles
  | .visit _, a => a.toList.flatMap Node.nodeHandles
  | .visitRow _, r => r.items.flatMap Node.nodeHandles

/-- The handles of all rows of what an operation is given or comes back with. -/
def Op.rowHandles : (op : Op) → op.Result → List Handle
  | .descend _, m => m.rowHandles
  | .visit _, a => a.toList.flatMap Node.rowHandles
  | .visitRow _, r => r.handle :: r.items.flatMap Node.rowHandles

/-- Whatever an operation comes back with, its handles have an origin: they are handles of the operand, they occur in
answers, or the pass has drawn them. -/
theorem Op.run_known {region : Nat} {t : Transform σ} {limit : Nat} (budget : Nat) (op : Op) (ha : op.Avoids region)
    {p q : Progress (Logged σ)} (hp : p.supply.region = region) {a : op.Result}
    (h : op.run t.recorded limit budget p = .ok a q) (hl : q.Lawful region) :
    (∀ h ∈ op.nodeHandles a, q.KnowsNode (op.nodeHandles op.input) h) ∧
      ∀ h ∈ op.rowHandles a, q.KnowsRow (op.rowHandles op.input) h := by
  let nodes := op.nodeHandles op.input
  let rows := op.rowHandles op.input
  have visits : ∀ {p n a q}, p.supply.region = region → Pass.visit t.recorded limit budget n p = .ok a q →
      q.Lawful region → Preserves nodes rows p q [n] a.toList :=
    fun hp h hl => visitWith_preserves (descend_moves budget)
      (fun _ hc _ _ _ hp h hl known => descend_known budget hc hp h hl known) hp h hl
  cases op with
  | descend n =>
    have known : p.Knows nodes rows n := ⟨fun _ mem => .given mem, fun _ mem => .given mem⟩
    obtain ⟨hn, hr⟩ := descend_known budget ha hp h hl known
    exact ⟨hn, hr⟩
  | visit n =>
    cases n with
    | none =>
      cases h
      exact ⟨fun _ mem => absurd mem List.not_mem_nil, fun _ mem => absurd mem List.not_mem_nil⟩
    | some n =>
      have known : ∀ c ∈ [n], p.Knows nodes rows c :=
        Progress.forall_knows_iff.mpr ⟨fun _ mem => .given mem, fun _ mem => .given mem⟩
      exact Progress.forall_knows_iff.mp ((visits hp h hl).2 known)
  | visitRow r =>
    have known : ∀ c ∈ r.items, p.Knows nodes rows c :=
      Progress.forall_knows_iff.mpr ⟨fun _ mem => .given mem, fun _ mem => .given (List.mem_cons_of_mem _ mem)⟩
    have passage := visitRowWith_passage (visit_moves budget) (visit_shares budget) hp ha h hl
    have items := (preserves_additive nodes rows).row (fun v => visits v.start v.run v.lawful) passage
    obtain ⟨hn, hr⟩ := Progress.forall_knows_iff.mp (items.2 known)
    refine ⟨hn, List.forall_mem_cons.mpr ⟨?_, hr⟩⟩
    rcases passage.row_from with mem | ⟨here, drawn⟩
    · rw [List.mem_singleton.mp mem]
      exact .given List.mem_cons_self
    · exact .drawn here drawn

end SharedTree.Pass
