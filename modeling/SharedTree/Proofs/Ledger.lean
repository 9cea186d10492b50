import SharedTree.Proofs.Chronicle

/-!
# Accounts of a run

The effects of a run can be put to the account of its moments. A `Ledger` is a relation of two points of a run and the
moments between them that passes from the single steps to the whole. A visit is the one step at which the transform is
asked, a row or a node is made at the end of the operation to which the moment belongs, and only if what it holds has
changed.

* `descend_accounted` is the induction over the levels.
* `Ledger.of_run` is the statement for a whole run, whether or not it succeeds.
* `renewals` is the account of the nodes that are made again.
-/

namespace SharedTree.Pass

variable {σ α β : Type}

/-- A relation of two points of a run and the moments between them that holds of a run if it holds of its steps. -/
structure Ledger (t : Transform σ) (limit : Nat) (A : Progress σ → Progress σ → List (Moment σ) → Prop) : Prop where
  nil (p : Progress σ) : A p p []
  append {p q r : Progress σ} {ms ns : List (Moment σ)} (first : A p q ms) (second : A q r ns) : A p r (ms ++ ns)
  asked (above : List SharedNode) (place : Place) (n : SharedNode) (p : Progress σ) :
    A p (p.heed n (t n p.state)) [⟨above, place, .visit (some n), p⟩]
  absent (above : List SharedNode) (place : Place) (p : Progress σ) : A p p [⟨above, place, .visit none, p⟩]
  deepened (p : Progress σ) (d : Nat) : A p (p.deepen d) []
  /-- The visits of the elements stop, or they change nothing. -/
  rowKept {above : List SharedNode} {place : Place} {r : SharedRow} {p q : Progress σ} {ms : List (Moment σ)}
    (visits : visitItems (visit t limit (limit - above.length)) r.items p = .ok none q ∨
      ∃ e, visitItems (visit t limit (limit - above.length)) r.items p = .error e q)
    (inside : A p q ms) : A p q (⟨above, place, .visitRow r, p⟩ :: ms)
  rowMade {above : List SharedNode} {place : Place} {r : SharedRow} {items : List SharedNode} {p q : Progress σ}
    {ms : List (Moment σ)}
    (visits : visitItems (visit t limit (limit - above.length)) r.items p = .ok (some items) q) (inside : A p q ms) :
    A p { q with supply := { q.supply with rows := q.supply.rows + 1 } } (⟨above, place, .visitRow r, p⟩ :: ms)
  /-- The descent stops, or it gives the node back. -/
  nodeKept {above : List SharedNode} {place : Place} {n : SharedNode} {p q : Progress σ} {ms : List (Moment σ)}
    (run : Moment.run t limit ⟨above, place, .descend n, p⟩ = .ok n q ∨
      ∃ e, Moment.run t limit ⟨above, place, .descend n, p⟩ = .error e q)
    (inside : A p q ms) : A p q (⟨above, place, .descend n, p⟩ :: ms)
  nodeMade {above : List SharedNode} {place : Place} {n : SharedNode}
    {fields : Fields SharedNode SharedRow n.kind.slots} {p q : Progress σ} {ms : List (Moment σ)}
    (run : Moment.run t limit ⟨above, place, .descend n, p⟩ = rebuild n fields q)
    (changed : n.fields.same fields = false) (inside : A p q ms) :
    A p (after (rebuild n fields q)) (⟨above, place, .descend n, p⟩ :: ms)

/-- The relation holds of all that a computation does and of the moments that are listed for it. -/
def Accounted (A : Progress σ → Progress σ → List (Moment σ) → Prop) (x : Run σ α)
    (listed : Progress σ → List (Moment σ)) : Prop := ∀ p, A p (after (x p)) (listed p)

section Accounted

variable {t : Transform σ} {limit : Nat} {A : Progress σ → Progress σ → List (Moment σ) → Prop}
  (ledger : Ledger t limit A)

include ledger in
private theorem Accounted.bind {x : Run σ α} {f : α → Run σ β} {listed later : Progress σ → List (Moment σ)}
    (hx : Accounted A x listed) (hf : ∀ a, Accounted A (f a) later) :
    Accounted A (x >>= f) fun p => listed p ++ following (x p) later := by
  intro p
  show A p (after ((x >>= f) p)) (listed p ++ following (x p) later)
  have first := hx p
  cases h : x p with
  | ok a q =>
    rw [h] at first
    rw [bind_of_ok h]
    exact ledger.append first (hf a q)
  | error e q =>
    rw [h] at first
    rw [bind_of_error h, following, List.append_nil]
    exact first

include ledger

private theorem accounted_chronicle :
    Chronicle fun {α : Type} _ (x : Run σ α) listed => Accounted A x listed where
  pure _ := ledger.nil
  bind hx hf := hx.bind ledger hf

section Level

variable {above : List SharedNode} {inside : Place → SharedNode → Progress σ → List (Moment σ)}
  (hv : ∀ place n, Accounted A (visit t limit (limit - above.length) n) (inside place n))

include hv

private theorem accounted_rows :
    Chronicle.Rows (fun {α : Type} _ (x : Run σ α) listed => Accounted A x listed)
      (visit t limit (limit - above.length)) above inside where
  element := hv .element
  row place r visits := by
    intro p
    have items := visits p
    cases h : visitItems (visit t limit (limit - above.length)) r.items p with
    | error e q =>
      rw [h] at items
      rw [visitRowWith_error h]
      exact ledger.rowKept (.inr ⟨e, h⟩) items
    | ok changed q =>
      rw [h] at items
      cases changed with
      | none =>
        rw [visitRowWith_unchanged h]
        exact ledger.rowKept (.inl h) items
      | some rest =>
        rw [visitRowWith_changed h]
        exact ledger.rowMade h items

private theorem accounted_level (parent : Kind) :
    Chronicle.Level (fun {α : Type} _ (x : Run σ α) listed => Accounted A x listed)
      (visit t limit (limit - above.length)) above inside parent where
  toRows := accounted_rows ledger hv
  optional s n _ := hv (.slot s) n
  required s n _ := by
    intro p
    have first := hv (.slot s) n p
    cases h : visit t limit (limit - above.length) n p with
    | error e q =>
      rw [h] at first
      rwa [visitChild_one_error h]
    | ok answer q =>
      rw [h] at first
      cases answer with
      | none => rwa [visitChild_one_removed h]
      | some m => rwa [visitChild_one h]

end Level

private theorem visitWith_accounted {above : List SharedNode} {below : SharedNode → Run σ SharedNode}
    {inside : Place → SharedNode → Progress σ → List (Moment σ)}
    (hb : ∀ place n, Accounted A (below n) (inside place n)) (place : Place) (n : SharedNode) :
    Accounted A (visitWith t below n) (visitMoments above t inside place n) := by
  intro p
  have first := ledger.asked above place n p
  cases h : (t n p.state).answer with
  | error message =>
    rw [visitMoments_alone place (by simp [h]), visitWith_crashed h]
    exact first
  | ok answer =>
    cases answer with
    | none =>
      rw [visitMoments_alone place (by simp [h]), visitWith_none h]
      exact first
    | some m =>
      rw [visitMoments_answered place h, visitWith_some h]
      exact ledger.append first ((accounted_chronicle ledger).bind_pure [m] (hb place m) _)

/-- A descent that has opened a level. If the visits of the slots are accounted for, so is the descent, be it that it
stops there, that the node comes back, or that the node is made anew. -/
private theorem level_accounted {budget : Nat} {above : List SharedNode} {place : Place} {n : SharedNode}
    {p : Progress σ} {ms : List (Moment σ)} (hn : n.kind.isTerminal = false)
    (run : Moment.run t limit ⟨above, place, .descend n, p⟩ = descend t limit (budget + 1) n p)
    (inside : A p (after (visitFields (visit t limit budget) n.kind n.fields (p.deepen (limit - budget)))) ms) :
    A p (after (descend t limit (budget + 1) n p)) (⟨above, place, .descend n, p⟩ :: ms) := by
  have ends := descend_inner t limit budget p hn
  change _ = (visitFields (visit t limit budget) n.kind n.fields >>= rebuild n) _ at ends
  cases h : visitFields (visit t limit budget) n.kind n.fields (p.deepen (limit - budget)) with
  | error e q =>
    rw [h] at inside
    rw [bind_of_error h] at ends
    rw [ends]
    exact ledger.nodeKept (.inr ⟨e, run.trans ends⟩) inside
  | ok fs q =>
    rw [h] at inside
    rw [bind_of_ok h] at ends
    cases changed : n.fields.same fs with
    | true =>
      rw [rebuild_same changed] at ends
      rw [ends]
      exact ledger.nodeKept (.inl (run.trans ends)) inside
    | false =>
      rw [ends]
      exact ledger.nodeMade (run.trans ends) changed inside

/-- The descent below a node, under as many open nodes as the budget leaves. -/
private theorem descend_accounted {budget : Nat} {above : List SharedNode} (level : above.length + budget = limit)
    (place : Place) (n : SharedNode) :
    Accounted A (descend t limit budget n) (descendMoments t limit budget above place n) := by
  have run : ∀ p, Moment.run t limit ⟨above, place, .descend n, p⟩ = descend t limit budget n p := by
    intro p
    simp only [Moment.run, show limit - above.length = budget by omega]
    rfl
  induction budget generalizing above place n with
  | zero => exact fun p => ledger.nodeKept (.inr ⟨_, run p⟩) (ledger.nil p)
  | succ budget ih =>
    intro p
    have opened := ledger.deepened p (limit - budget)
    rw [descendMoments]
    cases hn : n.kind.isTerminal with
    | true =>
      have ends := descend_terminal t limit budget p hn
      rw [ends, if_pos rfl]
      exact ledger.nodeKept (.inl ((run p).trans ends)) opened
    | false =>
      rw [if_neg Bool.false_ne_true]
      have deeper : (n :: above).length + budget = limit := by
        rw [List.length_cons]
        omega
      have left : limit - (n :: above).length = budget := by omega
      have visits : ∀ place c, Accounted A (visit t limit (limit - (n :: above).length) c)
          (visitMoments (n :: above) t (descendMoments t limit budget (n :: above)) place c) := by
        rw [left]
        refine visitWith_accounted ledger fun place' c => ih deeper place' c fun q => ?_
        simp only [Moment.run, left]
        rfl
      have fields := (accounted_chronicle ledger).visitFields (accounted_level ledger visits n.kind) n.fields
        (p.deepen (limit - budget))
      rw [left] at fields
      have inside := ledger.append opened fields
      exact level_accounted ledger hn (run p) inside

/-- The whole run of an operation. -/
theorem Ledger.of_run (op : Op) (p : Progress σ) : A p (after (op.run t limit limit p)) (op.moments t limit p) := by
  have descends : ∀ place n, Accounted A (Pass.descend t limit limit n) (descendMoments t limit limit [] place n) :=
    descend_accounted ledger (Nat.zero_add limit)
  have visits : ∀ place n, Accounted A (Pass.visit t limit (limit - ([] : List SharedNode).length) n)
      (visitMoments [] t (descendMoments t limit limit []) place n) := visitWith_accounted ledger descends
  cases op with
  | descend n => exact descends .root n p
  | visit n =>
    cases n with
    | none => exact ledger.absent [] .root p
    | some n => exact visits .root n p
  | visitRow r => exact (accounted_chronicle ledger).visitRowWith (accounted_rows ledger visits) .root r p

end Accounted

/-! ### Nodes that are made again -/

/-- Whether the descent that begins at a moment comes back with another node. -/
def Moment.renews (t : Transform σ) (limit : Nat) : Moment σ → Bool
  | ⟨above, _, .descend n, p⟩ =>
    match descend t limit (limit - above.length) n p with
    | .ok m _ => !m.same n
    | .error _ _ => false
  | _ => false

/-- The nodes that were made again are those with which descents have come back. -/
theorem renewals (t : Transform σ) (limit : Nat) :
    Ledger t limit fun p q ms => q.stats.rebuilt = ms.countP (Moment.renews t limit) + p.stats.rebuilt where
  nil _ := (Nat.zero_add _).symm
  append first second := by
    rw [List.countP_append]
    omega
  asked above place n p := (p.stats.heed_rebuilt n (t n p.state).answer).trans (Nat.zero_add _).symm
  absent _ _ _ := (Nat.zero_add _).symm
  deepened _ _ := (Nat.zero_add _).symm
  rowKept _ inside := by rwa [List.countP_cons_of_neg (by simp [Moment.renews])]
  rowMade _ inside := by rwa [List.countP_cons_of_neg (by simp [Moment.renews])]
  nodeKept {above place n p q ms} run inside := by
    have kept : Moment.renews t limit ⟨above, place, .descend n, p⟩ = false := by
      change descend t limit (limit - above.length) n p = _ ∨ ∃ e, descend t limit (limit - above.length) n p = _ at run
      rcases run with run | ⟨e, run⟩ <;> simp [Moment.renews, run, n.same_self]
    rwa [List.countP_cons_of_neg (by simp [kept])]
  nodeMade {above place n fields p q ms} run changed inside := by
    change descend t limit (limit - above.length) n p = _ at run
    rw [rebuild_changed changed] at run ⊢
    by_cases same : (q.renewed n fields).same n = true
    · rw [List.countP_cons_of_neg (by simp [Moment.renews, run, same])]
      simp only [after, same, if_true]
      exact inside
    · rw [List.countP_cons_of_pos (by simp [Moment.renews, run, same])]
      simp only [after, same]
      show q.stats.rebuilt + 1 = _
      omega

end SharedTree.Pass
