import SharedTree.Proofs.Fresh

/-!
# Passages

The visits of the elements of a row, of a child and of all slots of a node are visits of nodes, one after the other.
When they succeed, a passage over these nodes has been made. `Visited` is what is known of one visit on the way, in a
lawful run.

* `ItemsPassage`, `RowPassage`, `ChildPassage` and `FieldsPassage` are the passages over lists, rows, children and
  slots. They say how the results are put together.
* `visitFields_passage` and its companions: traversals that succeed are passages. This is the one place at which
  traversals that succeed are taken apart.
* An `Additive` relation passes from the visits on the way to the whole passage: `Additive.fields`.
-/

namespace SharedTree

theorem Node.same_comm (m n : SharedNode) : m.same n = n.same m := Bool.beq_comm

theorem Row.same_comm (r q : SharedRow) : r.same q = q.same r := Bool.beq_comm

namespace Pass

variable {σ α : Type}

/-- Whenever the computation succeeds in a lawful run, either its result is `same` and nothing has changed on the way,
or its result is `new` and something has changed. -/
def Shares (region : Nat) (x : Run (Logged σ) α) (same new : α → Prop) : Prop :=
  ∀ p a q, p.supply.region = region → x p = .ok a q → q.Lawful region →
    (same a ∧ Calm p q) ∨ (new a ∧ Stirred p q)

/-- The visit of a node that succeeds at a point of a lawful run. Either the node has come back and nothing has changed,
or it has not come back and something has changed. -/
structure Visited (region : Nat) (visit : SharedNode → Run (Logged σ) (Option SharedNode)) (p : Progress (Logged σ))
    (n : SharedNode) (a : Option SharedNode) (q : Progress (Logged σ)) : Prop where
  start : p.supply.region = region
  run : visit n p = .ok a q
  lawful : q.Lawful region
  later : Later p q
  shares : (a = some n ∧ Calm p q) ∨ ((∀ m, a = some m → m.same n = false) ∧ Stirred p q)

section Passage

variable (region : Nat) (visit : SharedNode → Run (Logged σ) (Option SharedNode))

/-- The visits of some nodes in order, with a new list of what they come back as if one of them does not come back. -/
inductive ItemsPassage :
    Progress (Logged σ) → List SharedNode → Option (List SharedNode) → Progress (Logged σ) → Prop
  | nil (p : Progress (Logged σ)) : ItemsPassage p [] none p
  | cons {p q r : Progress (Logged σ)} {n : SharedNode} {rest : List SharedNode} {answer : Option SharedNode}
      {changed : Option (List SharedNode)} (first : Visited region visit p n answer q)
      (others : ItemsPassage q rest changed r) : ItemsPassage p (n :: rest) (rejoin n rest answer changed) r

/-- The visit of a row: the row comes back if there is no new list of elements, and otherwise a row is made. -/
inductive RowPassage (p : Progress (Logged σ)) : SharedRow → SharedRow → Progress (Logged σ) → Prop
  | kept {q : Progress (Logged σ)} {r : SharedRow} (avoids : r.Avoids region)
      (visits : ItemsPassage region visit p r.items none q) : RowPassage p r r q
  | made {q : Progress (Logged σ)} {r : SharedRow} {items : List SharedNode} (avoids : r.Avoids region)
      (here : q.supply.region = region) (visits : ItemsPassage region visit p r.items (some items) q) :
      RowPassage p r ⟨⟨q.supply.region, q.supply.rows⟩, r.span, items⟩
        { q with supply := { q.supply with rows := q.supply.rows + 1 } }

/-- The visit of what is in a slot. What is absent stays absent, and a node that has to be there is not removed. -/
inductive ChildPassage (p : Progress (Logged σ)) :
    {a : Arity} → Child SharedNode SharedRow a → Child SharedNode SharedRow a → Progress (Logged σ) → Prop
  | one {q : Progress (Logged σ)} {n m : SharedNode} (h : Visited region visit p n (some m) q) :
      ChildPassage p (.one n) (.one m) q
  | absent : ChildPassage p (.opt none) (.opt none) p
  | opt {q : Progress (Logged σ)} {n : SharedNode} {answer : Option SharedNode}
      (h : Visited region visit p n answer q) : ChildPassage p (.opt (some n)) (.opt answer) q
  | row {q : Progress (Logged σ)} {r r' : SharedRow} (h : RowPassage region visit p r r' q) :
      ChildPassage p (.row r) (.row r') q
  | noRow : ChildPassage p (.optRow none) (.optRow none) p
  | optRow {q : Progress (Logged σ)} {r r' : SharedRow} (h : RowPassage region visit p r r' q) :
      ChildPassage p (.optRow (some r)) (.optRow (some r')) q

/-- The visits of the slots of a node in order. -/
inductive FieldsPassage : Progress (Logged σ) → {ss : List Slot} → Fields SharedNode SharedRow ss →
    Fields SharedNode SharedRow ss → Progress (Logged σ) → Prop
  | nil (p : Progress (Logged σ)) : FieldsPassage p .nil .nil p
  | cons {p q r : Progress (Logged σ)} {s : Slot} {ss : List Slot} {c d : Child SharedNode SharedRow s.arity}
      {cs ds : Fields SharedNode SharedRow ss} (first : ChildPassage region visit p c d q)
      (others : FieldsPassage q cs ds r) : FieldsPassage p (.cons c cs) (.cons d ds) r

end Passage

/-! ### Traversals that succeed -/

section Traversal

variable {region : Nat} {t : Transform σ} {limit : Nat} {visit : SharedNode → Run (Logged σ) (Option SharedNode)}
  (hv : ∀ n, Moves t.recorded limit (visit n))
  (hs : ∀ n : SharedNode, n.Avoids region →
    Shares region (visit n) (· = some n) (fun a => ∀ m, a = some m → m.same n = false))
  {p q : Progress (Logged σ)} (hp : p.supply.region = region)

include hv hs hp

private theorem visited_of_ok {n : SharedNode} (ha : n.Avoids region) {a : Option SharedNode}
    (h : visit n p = .ok a q) (hl : q.Lawful region) : Visited region visit p n a q :=
  ⟨hp, h, hl, .of_moves (hv n) h, hs n ha p a q hp h hl⟩

private theorem visitItems_passage {items : List SharedNode} (ha : ∀ n ∈ items, n.Avoids region)
    {changed : Option (List SharedNode)} (h : visitItems visit items p = .ok changed q) (hl : q.Lawful region) :
    ItemsPassage region visit p items changed q := by
  induction items generalizing p changed q with
  | nil => cases h; exact .nil p
  | cons n rest ih =>
    obtain ⟨avoid, avoids⟩ := List.forall_mem_cons.mp ha
    obtain ⟨answer, q₁, h₁, h⟩ := bind_eq_ok h
    obtain ⟨changed', q₂, h₂, h⟩ := bind_eq_ok h
    cases h
    have later₁ : Later p q₁ := .of_moves (hv n) h₁
    have later₂ : Later q₁ q := .of_moves (visitItems_moves hv rest) h₂
    have first : Visited region visit p n answer q₁ := visited_of_ok hv hs hp avoid h₁ (hl.of_later later₂)
    exact .cons first (ih (later₁.region.trans hp) avoids h₂ hl)

/-- The visit of a row that succeeds. -/
theorem visitRowWith_passage {r r' : SharedRow} (ha : r.Avoids region) (h : visitRowWith visit r p = .ok r' q)
    (hl : q.Lawful region) : RowPassage region visit p r r' q := by
  cases h₁ : visitItems visit r.items p with
  | error e q₁ => rw [visitRowWith_error h₁] at h; cases h
  | ok changed q₁ =>
    have later : Later p q₁ := .of_moves (visitItems_moves hv r.items) h₁
    cases changed with
    | none =>
      rw [visitRowWith_unchanged h₁] at h
      cases h
      exact .kept ha (visitItems_passage hv hs hp ha.2 h₁ hl)
    | some items =>
      rw [visitRowWith_changed h₁] at h
      cases h
      exact .made ha (later.region.trans hp) (visitItems_passage hv hs hp ha.2 h₁ hl)

private theorem visitChild_passage {parent : Kind} {label : String} {a : Arity} {c d : Child SharedNode SharedRow a}
    (ha : c.Avoids region) (h : visitChild visit parent label c p = .ok d q) (hl : q.Lawful region) :
    ChildPassage region visit p c d q := by
  cases c with
  | one n =>
    have avoid : n.Avoids region := ha.1 n List.mem_cons_self
    cases h₁ : visit n p with
    | error e q₁ => rw [visitChild_one_error h₁] at h; cases h
    | ok answer q₁ =>
      cases answer with
      | none => rw [visitChild_one_removed h₁] at h; cases h
      | some m =>
        rw [visitChild_one h₁] at h
        cases h
        exact .one (visited_of_ok hv hs hp avoid h₁ hl)
  | opt n =>
    cases n with
    | none => cases h; exact .absent
    | some n =>
      have avoid : n.Avoids region := ha.1 n List.mem_cons_self
      obtain ⟨answer, q₁, h₁, h⟩ := bind_eq_ok h
      cases h
      exact .opt (visited_of_ok hv hs hp avoid h₁ hl)
  | row r =>
    have avoid : r.Avoids region := ⟨ha.2 r List.mem_cons_self, ha.1⟩
    obtain ⟨r', q₁, h₁, h⟩ := bind_eq_ok h
    cases h
    exact .row (visitRowWith_passage hv hs hp avoid h₁ hl)
  | optRow r =>
    cases r with
    | none => cases h; exact .noRow
    | some r =>
      have avoid : r.Avoids region := ⟨ha.2 r List.mem_cons_self, ha.1⟩
      obtain ⟨r', q₁, h₁, h⟩ := bind_eq_ok h
      cases h
      exact .optRow (visitRowWith_passage hv hs hp avoid h₁ hl)

/-- The visits of the slots that succeed. -/
theorem visitFields_passage {parent : Kind} {ss : List Slot} {fs gs : Fields SharedNode SharedRow ss}
    (ha : fs.Avoids region) (h : visitFields visit parent fs p = .ok gs q) (hl : q.Lawful region) :
    FieldsPassage region visit p fs gs q := by
  induction fs generalizing p q with
  | nil => cases h; exact .nil p
  | @cons s ss c rest ih =>
    obtain ⟨hc, hrest⟩ := Fields.avoids_cons.mp ha
    obtain ⟨d, q₁, h₁, h⟩ := bind_eq_ok h
    obtain ⟨ds, q₂, h₂, h⟩ := bind_eq_ok h
    cases h
    have later₁ : Later p q₁ := .of_moves (visitChild_moves hv parent s.label c) h₁
    have later₂ : Later q₁ q := .of_moves (visitFields_moves hv parent rest) h₂
    have first : ChildPassage region visit p c d q₁ := visitChild_passage hv hs hp hc h₁ (hl.of_later later₂)
    exact .cons first (ih (later₁.region.trans hp) hrest h₂ hl)

end Traversal

/-! ### Relations along a passage -/

/-- A relation between two points of a run, what goes in between them and what comes out. It holds where nothing
happens, it passes to visits one after the other, and it does not depend on the rows that are made. -/
structure Additive (M : Progress (Logged σ) → Progress (Logged σ) → List SharedNode → List SharedNode → Prop) :
    Prop where
  nil (p : Progress (Logged σ)) : M p p [] []
  append {p q r : Progress (Logged σ)} {ns ms ns' ms' : List SharedNode} (first : M p q ns ms)
    (second : M q r ns' ms') : M p r (ns ++ ns') (ms ++ ms')
  rowMade {p q : Progress (Logged σ)} {ns ms : List SharedNode} (h : M p q ns ms) :
    M p { q with supply := { q.supply with rows := q.supply.rows + 1 } } ns ms

/-- The elements of a row after a visit are the answer and what has become of the others, whether or not the list is
made anew. -/
theorem rejoin_getD {n : SharedNode} {rest : List SharedNode} {answer : Option SharedNode}
    (changed : Option (List SharedNode)) (h : answer = some n ∨ ∀ m, answer = some m → m.same n = false) :
    (rejoin n rest answer changed).getD (n :: rest) = answer.toList ++ changed.getD rest := by
  rcases h with rfl | new
  · cases changed with
    | none =>
      have kept : rejoin n rest (some n) none = none := by simp [rejoin, Node.same_self]
      rw [kept]
      rfl
    | some items => rfl
  · cases answer with
    | none => rfl
    | some m =>
      cases changed with
      | none =>
        have anew : rejoin n rest (some m) none = some (m :: rest) := by simp [rejoin, new m rfl]
        rw [anew]
        rfl
      | some items => rfl

namespace Additive

variable {M : Progress (Logged σ) → Progress (Logged σ) → List SharedNode → List SharedNode → Prop} (add : Additive M)
  {region : Nat} {visit : SharedNode → Run (Logged σ) (Option SharedNode)}
  (hM : ∀ {p n a q}, Visited region visit p n a q → M p q [n] a.toList) {p q : Progress (Logged σ)}

include add hM

/-- An additive relation passes to the elements of a row. -/
theorem items {items : List SharedNode} {changed : Option (List SharedNode)}
    (h : ItemsPassage region visit p items changed q) : M p q items (changed.getD items) := by
  induction h with
  | nil p => exact add.nil p
  | @cons _ _ _ n rest answer changed first _ ih =>
    have either : answer = some n ∨ ∀ m, answer = some m → m.same n = false := first.shares.imp And.left And.left
    rw [rejoin_getD changed either]
    exact add.append (hM first) ih

theorem row {r r' : SharedRow} (h : RowPassage region visit p r r' q) : M p q r.items r'.items := by
  cases h with
  | kept _ visits => exact add.items hM visits
  | made _ _ visits => exact add.rowMade (add.items hM visits)

theorem child {a : Arity} {c d : Child SharedNode SharedRow a} (h : ChildPassage region visit p c d q) :
    M p q c.nodes d.nodes := by
  cases h with
  | one v => exact hM v
  | absent => exact add.nil p
  | opt v => exact hM v
  | row passage => exact add.row hM passage
  | noRow => exact add.nil p
  | optRow passage => exact add.row hM passage

/-- An additive relation that holds of every visit on the way holds of the whole passage. -/
theorem fields {ss : List Slot} {fs gs : Fields SharedNode SharedRow ss} (h : FieldsPassage region visit p fs gs q) :
    M p q fs.nodes gs.nodes := by
  induction h with
  | nil p => exact add.nil p
  | cons first _ ih => exact add.append (add.child hM first) ih

end Additive

private theorem later_additive : Additive fun (p q : Progress (Logged σ)) _ _ => Later p q where
  nil := .refl
  append := .trans
  rowMade h := ⟨h.record, h.region, h.replaced, h.removed, h.rebuilt⟩

section Later

variable {region : Nat} {visit : SharedNode → Run (Logged σ) (Option SharedNode)} {p q : Progress (Logged σ)}

theorem ItemsPassage.later {items : List SharedNode} {changed : Option (List SharedNode)}
    (h : ItemsPassage region visit p items changed q) : Later p q := later_additive.items Visited.later h

/-- A passage leads on to later points of the run. -/
theorem FieldsPassage.later {ss : List Slot} {fs gs : Fields SharedNode SharedRow ss}
    (h : FieldsPassage region visit p fs gs q) : Later p q := later_additive.fields Visited.later h

end Later

end Pass

end SharedTree
