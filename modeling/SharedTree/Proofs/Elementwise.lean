import SharedTree.Proofs.Origin
import Mathlib.Data.List.Forall2
import Mathlib.Data.List.ReduceOption

/-!
# Rows, element by element

The visit of a row maps and filters its elements: they are visited in order, each from where the one before it has
ended, and what they come back as makes up the row, with those left out that are removed. The row itself comes back if
every element has come back as it was. Then, and only then, no list is built.

* `InTurn` are the visits of some nodes, one after the other.
* `Sifted` says when there is a new list of elements, and what is in it. `visitItems_sifted` shows it of the visits, and
  `sweep_sifted` of a loop from left to right that begins to copy at the first change.
* `visitRow_elementwise` is the statement for a row at any point of a run.
-/

namespace SharedTree.Pass

variable {σ : Type}

/-! ### Visits in turn -/

/-- The visits of some nodes in order, each from where the one before it has ended, and what they come to. -/
inductive InTurn (visit : SharedNode → Run σ (Option SharedNode)) :
    List SharedNode → Progress σ → List (Option SharedNode) → Progress σ → Prop
  | nil (p : Progress σ) : InTurn visit [] p [] p
  | cons {n : SharedNode} {ns : List SharedNode} {answer : Option SharedNode} {answers : List (Option SharedNode)}
      {p q r : Progress σ} (first : visit n p = .ok answer q) (others : InTurn visit ns q answers r) :
      InTurn visit (n :: ns) p (answer :: answers) r

section InTurn

variable {visit : SharedNode → Run σ (Option SharedNode)}

/-- Either all visits come to their end, or one of them is the first that does not. -/
theorem inTurn_or_fails (visit : SharedNode → Run σ (Option SharedNode)) (ns : List SharedNode) (p : Progress σ) :
    (∃ answers q, InTurn visit ns p answers q) ∨
      ∃ before n behind answers q e q', ns = before ++ n :: behind ∧ InTurn visit before p answers q ∧
        visit n q = .error e q' := by
  induction ns generalizing p with
  | nil => exact .inl ⟨[], p, .nil p⟩
  | cons n ns ih =>
    cases first : visit n p with
    | error e q => exact .inr ⟨[], n, ns, [], p, e, q, rfl, .nil p, first⟩
    | ok answer q =>
      rcases ih q with ⟨answers, r, others⟩ | ⟨before, m, behind, answers, r, e, r', split, others, failed⟩
      · exact .inl ⟨answer :: answers, r, .cons first others⟩
      · exact .inr ⟨n :: before, m, behind, answer :: answers, r, e, r', by rw [split, List.cons_append],
          .cons first others, failed⟩

private theorem InTurn.moves {t : Transform σ} {limit : Nat} (hv : ∀ n, Moves t limit (visit n)) {ns : List SharedNode}
    {answers : List (Option SharedNode)} {p q : Progress σ} (h : InTurn visit ns p answers q) :
    Reaches t limit p q := by
  induction h with
  | nil p => exact .refl
  | @cons n _ _ _ p _ _ first _ ih =>
    have step := hv n p
    rw [first] at step
    exact step.trans ih

/-- Visits in turn are a map over the nodes with effects. -/
theorem mapM_of_inTurn {ns : List SharedNode} {answers : List (Option SharedNode)} {p q : Progress σ}
    (h : InTurn visit ns p answers q) : ns.mapM visit p = .ok answers q := by
  induction h with
  | nil p => rfl
  | cons first _ ih =>
    rw [List.mapM_cons, bind_of_ok first]
    exact bind_of_ok ih

/-- The first visit that fails ends a map over the nodes. -/
theorem mapM_fails {before : List SharedNode} {answers : List (Option SharedNode)} {p q q' : Progress σ}
    (h : InTurn visit before p answers q) {n : SharedNode} {e : Halt} (failed : visit n q = .error e q')
    (behind : List SharedNode) : (before ++ n :: behind).mapM visit p = .error e q' := by
  rw [List.mapM_append, bind_of_ok (mapM_of_inTurn h), List.mapM_cons]
  exact bind_of_error (bind_of_error failed)

/-- The first visit that fails ends the visits of the elements: those behind it are not visited. -/
theorem visitItems_fails {before : List SharedNode} {answers : List (Option SharedNode)} {p q q' : Progress σ}
    (h : InTurn visit before p answers q) {n : SharedNode} {e : Halt} (failed : visit n q = .error e q')
    (behind : List SharedNode) : visitItems visit (before ++ n :: behind) p = .error e q' := by
  induction h with
  | nil p => exact bind_of_error failed
  | cons first _ ih =>
    rw [List.cons_append, visitItems, bind_of_ok first]
    exact bind_of_error (ih failed)

end InTurn

/-! ### What is left of the elements -/

/-- Every node has come back as it was. -/
def Unmoved : List SharedNode → List (Option SharedNode) → Prop :=
  List.Forall₂ fun n answer => sameOpt Node.same answer (some n) = true

/-- The element `k` of a new list stands for the answer `m`: it is the answer, or it is one of the nodes that were
visited, and the answer has its handle. -/
def Stands (ns : List SharedNode) (k m : SharedNode) : Prop := k = m ∨ k ∈ ns ∧ m.same k = true

/-- A new list of elements, if there is one. There is none as long as all nodes have come back as they were, and
otherwise it has the answers in order, but for the nodes that are removed. -/
def Sifted (ns : List SharedNode) (answers : List (Option SharedNode)) : Option (List SharedNode) → Prop
  | none => Unmoved ns answers
  | some made => ¬Unmoved ns answers ∧ List.Forall₂ (Stands ns) made answers.reduceOption

section Sifted

variable {n m : SharedNode} {ns made : List SharedNode} {answers : List (Option SharedNode)}

private theorem Stands.cons {k : SharedNode} (h : Stands ns k m) : Stands (n :: ns) k m := by
  rcases h with rfl | ⟨mem, same⟩
  · exact .inl rfl
  · exact .inr ⟨List.mem_cons_of_mem n mem, same⟩

private theorem stand_self (ns ms : List SharedNode) : List.Forall₂ (Stands ns) ms ms :=
  List.forall₂_same.mpr fun _ _ => .inl rfl

/-- Nodes that have come back as they were stand for what they have come back as. -/
private theorem Unmoved.stand (h : Unmoved ns answers) : List.Forall₂ (Stands ns) ns answers.reduceOption := by
  induction h with
  | nil => exact .nil
  | @cons n answer _ _ same _ ih =>
    have behind := ih.imp fun _ _ => Stands.cons (n := n)
    cases answer with
    | none => exact absurd same Bool.false_ne_true
    | some m =>
      rw [List.reduceOption_cons_of_some]
      exact .cons (.inr ⟨List.mem_cons_self, same⟩) behind

/-- A list that stands for the answers has their handles. -/
private theorem handles_of_stand (h : List.Forall₂ (Stands ns) made answers.reduceOption) :
    made.map Node.handle = answers.reduceOption.map Node.handle := by
  generalize answers.reduceOption = ms at h
  induction h with
  | nil => rfl
  | cons stands _ ih =>
    rw [List.map_cons, List.map_cons, ih]
    rcases stands with rfl | ⟨-, same⟩
    · rfl
    · rw [eq_of_beq same]

/-- If a handle stands for one node, a list that stands for the answers is the list of the answers. -/
private theorem eq_of_stand (h : List.Forall₂ (Stands ns) made answers.reduceOption)
    (one : ∀ n ∈ ns, ∀ m ∈ answers.reduceOption, m.same n = true → m = n) : made = answers.reduceOption := by
  generalize answers.reduceOption = ms at h one
  induction h with
  | nil => rfl
  | @cons k m _ _ stands _ ih =>
    rw [ih fun n hn m hm => one n hn m (List.mem_cons_of_mem _ hm)]
    rcases stands with rfl | ⟨mem, same⟩
    · rfl
    · rw [one k mem m List.mem_cons_self same]

/-- Nothing is left if every answer removes its element. -/
private theorem eq_nil_of_stand (h : List.Forall₂ (Stands ns) made answers.reduceOption)
    (gone : ∀ answer ∈ answers, answer = none) : made = [] := by
  have none_left : answers.reduceOption = [] := by
    rw [List.eq_nil_iff_forall_not_mem]
    intro m hm
    exact absurd (gone _ (List.reduceOption_mem_iff.mp hm)) (Option.some_ne_none m)
  rw [none_left] at h
  exact List.forall₂_nil_right_iff.mp h

private theorem unmoved_cons {answer : Option SharedNode} :
    Unmoved (n :: ns) (answer :: answers) ↔ sameOpt Node.same answer (some n) = true ∧ Unmoved ns answers :=
  List.forall₂_cons

/-- Whether every node has come back as it was can be found by a search. -/
theorem InTurn.unmoved_iff {visit : SharedNode → Run σ (Option SharedNode)} {p q : Progress σ}
    (h : InTurn visit ns p answers q) :
    Unmoved ns answers ↔ ((ns.zip answers).any fun (n, answer) => !sameOpt Node.same answer (some n)) = false := by
  induction h with
  | nil p => simp [Unmoved]
  | cons _ _ ih => simp [unmoved_cons, ih]

/-- An element that has come back as it was goes in front of a new list of those behind it, as itself or as the
answer; without such a list there is none still. -/
private theorem Sifted.kept {changed : Option (List SharedNode)} (h : Sifted ns answers changed)
    (same : m.same n = true) {k : SharedNode} (hk : k = m ∨ k = n) :
    Sifted (n :: ns) (some m :: answers) (changed.map (k :: ·)) := by
  cases changed with
  | none => exact unmoved_cons.mpr ⟨same, h⟩
  | some made =>
    refine ⟨fun unmoved => h.1 (unmoved_cons.mp unmoved).2, ?_⟩
    have stands : Stands (n :: ns) k m := by
      rcases hk with rfl | rfl
      · exact .inl rfl
      · exact .inr ⟨List.mem_cons_self, same⟩
    rw [List.reduceOption_cons_of_some]
    exact .cons stands (h.2.imp fun _ _ => Stands.cons)

/-- An element that is removed or comes back as another node begins a new list. -/
private theorem Sifted.moved {answer : Option SharedNode} (moved : sameOpt Node.same answer (some n) = false)
    (stand : List.Forall₂ (Stands ns) made answers.reduceOption) :
    Sifted (n :: ns) (answer :: answers) (some (answer.toList ++ made)) := by
  have behind : List.Forall₂ (Stands (n :: ns)) made answers.reduceOption := stand.imp fun _ _ => Stands.cons
  refine ⟨fun unmoved => ?_, ?_⟩
  · have same := (unmoved_cons.mp unmoved).1
    rw [moved] at same
    cases same
  · cases answer with
    | none => exact behind
    | some m => exact .cons (.inl rfl) behind

end Sifted

/-! ### The loop over the elements -/

/-- One turn of a loop over the elements of a row: `before` are the elements in front of `n`, and `copy` is what
they have come back as, from the first change on. -/
def sweepOnce (before : List SharedNode) (n : SharedNode) :
    Option (List SharedNode) → Option SharedNode → Option (List SharedNode)
  | some copy, answer => some (copy ++ answer.toList)
  | none, answer => if sameOpt Node.same answer (some n) then none else some (before ++ answer.toList)

/-- A loop over the elements of a row from left to right. The elements in front of the first change are copied when the
change comes about. -/
def sweep (visit : SharedNode → Run σ (Option SharedNode)) (before : List SharedNode)
    (copy : Option (List SharedNode)) : List SharedNode → Run σ (Option (List SharedNode))
  | [] => return copy
  | n :: behind => do
    let answer ← visit n
    sweep visit (before ++ [n]) (sweepOnce before n copy answer) behind

section Loop

variable {visit : SharedNode → Run σ (Option SharedNode)} {ns : List SharedNode} {answers : List (Option SharedNode)}
  {p q : Progress σ}

/-- Visits that all come to their end leave what is left of the elements. -/
theorem visitItems_sifted (h : InTurn visit ns p answers q) :
    ∃ changed, visitItems visit ns p = .ok changed q ∧ Sifted ns answers changed := by
  induction h with
  | nil p => exact ⟨none, rfl, .nil⟩
  | @cons n ns answer answers p _ _ first _ ih =>
    obtain ⟨changed, visited, sifted⟩ := ih
    refine ⟨rejoin n ns answer changed, ?_, ?_⟩
    · rw [visitItems, bind_of_ok first, bind_of_ok visited]
      rfl
    · -- whether a new list begins here is up to this answer, unless one has begun behind it
      cases moved : sameOpt Node.same answer (some n) with
      | true =>
        cases answer with
        | none => exact absurd moved Bool.false_ne_true
        | some m =>
          have joined : rejoin n ns (some m) changed = changed.map (m :: ·) := by
            have same : m.same n = true := moved
            cases changed <;> simp [rejoin, same]
          rw [joined]
          exact sifted.kept moved (.inl rfl)
      | false =>
        have joined : rejoin n ns answer changed = some (answer.toList ++ changed.getD ns) := by
          cases answer with
          | none => rfl
          | some m =>
            have new : m.same n = false := moved
            cases changed <;> simp [rejoin, new]
        rw [joined]
        refine .moved moved ?_
        cases changed with
        | none => exact Unmoved.stand sifted
        | some made => exact sifted.2

/-- Once the copy has begun, the loop adds one answer after the other. -/
private theorem sweep_copying (h : InTurn visit ns p answers q) (before copy : List SharedNode) :
    sweep visit before (some copy) ns p = .ok (some (copy ++ answers.reduceOption)) q := by
  induction h generalizing before copy with
  | nil p =>
    rw [List.reduceOption_nil, List.append_nil]
    rfl
  | @cons n _ answer _ _ _ _ first _ ih =>
    rw [sweep, bind_of_ok first, sweepOnce, ih]
    cases answer with
    | none => rw [List.reduceOption_cons_of_none, Option.toList_none, List.append_nil]
    | some m => rw [List.reduceOption_cons_of_some, Option.toList_some, List.append_assoc, List.singleton_append]

/-- The invariant of the loop before the first change: what it will have copied are the elements it has passed and
what is left of those to come. -/
private theorem sweep_untouched (h : InTurn visit ns p answers q) (before : List SharedNode) :
    ∃ changed, sweep visit before none ns p = .ok (changed.map (before ++ ·)) q ∧ Sifted ns answers changed := by
  induction h generalizing before with
  | nil p => exact ⟨none, rfl, .nil⟩
  | @cons n ns answer answers p _ _ first others ih =>
    rw [sweep, bind_of_ok first, sweepOnce]
    cases moved : sameOpt Node.same answer (some n) with
    | true =>
      -- nothing is copied yet, and `n` joins the elements that will be
      obtain ⟨changed, swept, sifted⟩ := ih (before ++ [n])
      rw [if_pos rfl, swept]
      cases answer with
      | none => exact absurd moved Bool.false_ne_true
      | some m =>
        refine ⟨changed.map (n :: ·), ?_, sifted.kept moved (.inr rfl)⟩
        cases changed <;> simp
    | false =>
      -- the first change: from here on the copy has begun
      rw [if_neg Bool.false_ne_true, sweep_copying others]
      refine ⟨some (answer.toList ++ answers.reduceOption), ?_, .moved moved (stand_self ns _)⟩
      rw [Option.map_some, List.append_assoc]

/-- The loop from left to right leaves what is left of the elements as well. -/
theorem sweep_sifted (h : InTurn visit ns p answers q) :
    ∃ changed, sweep visit [] none ns p = .ok changed q ∧ Sifted ns answers changed := by
  obtain ⟨changed, swept, sifted⟩ := sweep_untouched h []
  refine ⟨changed, ?_, sifted⟩
  rw [swept]
  cases changed <;> rfl

/-- The first visit that fails ends the loop. -/
theorem sweep_fails {before : List SharedNode} (h : InTurn visit before p answers q) {n : SharedNode} {e : Halt}
    {q' : Progress σ} (failed : visit n q = .error e q') (behind passed : List SharedNode)
    (copy : Option (List SharedNode)) : sweep visit passed copy (before ++ n :: behind) p = .error e q' := by
  induction h generalizing passed copy with
  | nil p => exact bind_of_error failed
  | cons first _ ih =>
    rw [List.cons_append, sweep, bind_of_ok first]
    exact ih failed _ _

end Loop

/-! ### Rows -/

private theorem ne_next_of_used {s : Supply} {h : Handle} (used : s.UsesRow h) : h ≠ ⟨s.region, s.rows⟩ := by
  rintro rfl
  exact absurd (used rfl) (Nat.lt_irrefl _)

private theorem Reaches.region {t : Transform σ} {limit : Nat} {p q : Progress σ} (h : Reaches t limit p q) :
    q.supply.region = p.supply.region := by
  induction h with
  | refl => rfl
  | tail _ step ih =>
    rw [← ih]
    cases step with
    | asked n => rfl
    | deepened d _ => rfl
    | rowMade items span => rfl
    | nodeMade n fields =>
      obtain ⟨m, nodes, rebuilt, made, -⟩ := rebuild_frame n fields _
      rw [made]
      rfl

/-- A handle that is in use stays in use. -/
private theorem Reaches.usesRow {t : Transform σ} {limit : Nat} {p q : Progress σ} (reach : Reaches t limit p q)
    {h : Handle} (used : p.supply.UsesRow h) : q.supply.UsesRow h := by
  intro here
  have before : h.serial < p.supply.rows := used (here.trans (Reaches.region reach))
  exact Nat.lt_of_lt_of_le before (Reaches.drawn reach).2

/-- The row `made` is what is left of `row` when its elements, from `p` to `q`, have come back as `answers`, and `q'` is
where the run goes on. -/
structure RowSifted (row : SharedRow) (answers : List (Option SharedNode)) (p q : Progress σ) (made : SharedRow)
    (q' : Progress σ) : Prop where
  elements : made.items.map Node.handle = answers.reduceOption.map Node.handle
  exact : (∀ n ∈ row.items, ∀ m ∈ answers.reduceOption, m.same n = true → m = n) → made.items = answers.reduceOption
  emptied : (∀ answer ∈ answers, answer = none) → made.items = []
  span : made.span = row.span
  kept : Unmoved row.items answers → made = row ∧ q' = q
  drawn : ¬Unmoved row.items answers → made.handle = ⟨q.supply.region, q.supply.rows⟩ ∧
    q' = { q with supply := { q.supply with rows := q.supply.rows + 1 } }
  fresh : ¬Unmoved row.items answers → ∀ h, q.supply.UsesRow h → made.handle ≠ h
  itself : p.supply.UsesRow row.handle → (made.same row = true ↔ Unmoved row.items answers)

/-- If the visits of the elements come to their end, so does the visit of the row. -/
private theorem visitRowWith_sifted {t : Transform σ} {limit : Nat} {visit : SharedNode → Run σ (Option SharedNode)}
    (hv : ∀ n, Moves t limit (visit n)) {row : SharedRow} {answers : List (Option SharedNode)} {p q : Progress σ}
    (h : InTurn visit row.items p answers q) :
    ∃ made q', visitRowWith visit row p = .ok made q' ∧ RowSifted row answers p q made q' := by
  obtain ⟨changed, visited, sifted⟩ := visitItems_sifted h
  cases changed with
  | none =>
    have unmoved : Unmoved row.items answers := sifted
    refine ⟨row, q, visitRowWith_unchanged visited, ?_⟩
    exact
      { elements := handles_of_stand unmoved.stand
        exact := eq_of_stand unmoved.stand
        emptied := eq_nil_of_stand unmoved.stand
        span := rfl
        kept := fun _ => ⟨rfl, rfl⟩
        drawn := fun moved => absurd unmoved moved
        fresh := fun moved => absurd unmoved moved
        itself := fun _ => ⟨fun _ => unmoved, fun _ => row.same_self⟩ }
  | some items =>
    obtain ⟨moved, stand⟩ := sifted
    refine ⟨⟨⟨q.supply.region, q.supply.rows⟩, row.span, items⟩, _, visitRowWith_changed visited, ?_⟩
    exact
      { elements := handles_of_stand stand
        exact := eq_of_stand stand
        emptied := eq_nil_of_stand stand
        span := rfl
        kept := fun unmoved => absurd unmoved moved
        drawn := fun _ => ⟨rfl, rfl⟩
        fresh := fun _ h used => (ne_next_of_used used).symm
        itself := fun used =>
          have still : q.supply.UsesRow row.handle := Reaches.usesRow (h.moves hv) used
          ⟨fun same => absurd (eq_of_beq same).symm (ne_next_of_used still), fun unmoved => absurd unmoved moved⟩ }

/-- The visit of a row is a map and a filter of its elements.

Either all elements come to the end of their visits or there is a first that does not. In the first case the row that
comes back has the answers as its elements, in order and without those that are removed. It is the row itself if every
element has come back as it was, and otherwise a new row with the same span, which is there even if it has no elements.
In the second case the run ends as the visit of that element does, and no element behind it is visited.

A loop that copies the elements in front of the first change when the change comes about ends up with the same elements
in the same state, or in the same failure. -/
theorem visitRow_elementwise (t : Transform σ) (limit budget : Nat) (row : SharedRow) (p : Progress σ) :
    ((∃ answers q, InTurn (visit t limit budget) row.items p answers q) ∨
      ∃ before n behind answers q e q', row.items = before ++ n :: behind ∧
        InTurn (visit t limit budget) before p answers q ∧ visit t limit budget n q = .error e q') ∧
    (∀ answers q, InTurn (visit t limit budget) row.items p answers q →
      (∃ made q', visitRow t limit budget row p = .ok made q' ∧ RowSifted row answers p q made q' ∧
        ∀ parent label, visitChild (visit t limit budget) parent label (.optRow (some row)) p =
          .ok (.optRow (some made)) q') ∧
      ∃ changed, sweep (visit t limit budget) [] none row.items p = .ok changed q ∧ Sifted row.items answers changed) ∧
    ∀ before n behind answers q e q', row.items = before ++ n :: behind →
      InTurn (visit t limit budget) before p answers q → visit t limit budget n q = .error e q' →
        visitRow t limit budget row p = .error e q' ∧
          sweep (visit t limit budget) [] none row.items p = .error e q' := by
  refine ⟨inTurn_or_fails _ row.items p, fun answers q h => ⟨?_, sweep_sifted h⟩, ?_⟩
  · obtain ⟨made, q', visited, sifted⟩ := visitRowWith_sifted (visit_moves budget) h
    exact ⟨made, q', visited, sifted, fun parent label => bind_of_ok visited⟩
  · intro before n behind answers q e q' split h failed
    constructor
    · have items : visitItems (visit t limit budget) row.items p = .error e q' := by
        rw [split]
        exact visitItems_fails h failed behind
      exact visitRowWith_error items
    · rw [split]
      exact sweep_fails h failed behind [] none

end SharedTree.Pass
