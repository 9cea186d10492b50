import SharedTree.Proofs.Fresh

/-!
# Computations side by side

Two runs are compared where one of them shares and the other one does not, where the trees below them are alike, or
where one goes over what the other one has made. In each case the trees are related slot by slot, and the two runs go
through the slots together.

* `Child.Rel` and `Fields.Rel` relate what two slots, or all slots of two nodes, hold.
* `Parallel` says of two computations that they come to related results or stop in the same way, and that they get from
  points that are level to such points. This is claimed of fair runs only. `Parallel.bind` puts two steps together: a
  run that is fair in the end was so at all earlier points (`Backward`).
* `traverseFields` is the visit of slots for any visits of nodes and of rows. `Parallel.fields` is the case analysis of
  slots and the induction over them, and it is the only one of its kind: the visits of a pass and the plain visits are
  both of this form.
-/

namespace SharedTree

/-! ### Slots that are related -/

section Rel

variable {α β ρ τ : Type}

/-- Two slots in which the nodes, if there are any, and the rows are related. -/
inductive Child.Rel (A : Option α → Option β → Prop) (B : ρ → τ → Prop) :
    {a : Arity} → Child α ρ a → Child β τ a → Prop
  | one {m : α} {n : β} (h : A (some m) (some n)) : Rel A B (.one m) (.one n)
  | opt {m : Option α} {n : Option β} (h : A m n) : Rel A B (.opt m) (.opt n)
  | row {r : ρ} {q : τ} (h : B r q) : Rel A B (.row r) (.row q)
  | noRow : Rel A B (.optRow none) (.optRow none)
  | optRow {r : ρ} {q : τ} (h : B r q) : Rel A B (.optRow (some r)) (.optRow (some q))

/-- All slots are related, one by one. -/
inductive Fields.Rel (A : Option α → Option β → Prop) (B : ρ → τ → Prop) :
    {ss : List Slot} → Fields α ρ ss → Fields β τ ss → Prop
  | nil : Rel A B .nil .nil
  | cons {s : Slot} {ss : List Slot} {c : Child α ρ s.arity} {d : Child β τ s.arity} {cs : Fields α ρ ss}
      {ds : Fields β τ ss} (h : c.Rel A B d) (rest : Rel A B cs ds) : Rel A B (.cons c cs) (.cons d ds)

private theorem Child.map_id {a : Arity} (c : Child α ρ a) : c.map id id = c := by
  cases c with
  | one n => rfl
  | opt n => cases n <;> rfl
  | row r => rfl
  | optRow r => cases r <;> rfl

/-- Slots are their own image under identities. -/
theorem Fields.map_id {ss : List Slot} (fs : Fields α ρ ss) : fs.map id id = fs := by
  induction fs with
  | nil => rfl
  | cons c rest ih => rw [Fields.map, c.map_id, ih]

/-- Two nodes, or two rows, with the same image, each without the handles that a pass draws. -/
def Paired (avoids avoids' : α → Prop) (f : α → β) (a a' : α) : Prop := f a = f a' ∧ avoids a ∧ avoids' a'

private theorem optRel_of_map_eq {A : α → α → Prop} {f : α → β} {m n : Option α} (h : m.map f = n.map f)
    (hA : ∀ a, m = some a → ∀ b, n = some b → f a = f b → A a b) : Option.Rel A m n := by
  cases m with
  | none =>
    cases n with
    | none => exact .none
    | some n => cases h
  | some m =>
    cases n with
    | none => cases h
    | some n => exact .some (hA m rfl n rfl (Option.some.inj h))

variable {f : SharedNode → α} {g : SharedRow → ρ} {region region' : Nat}

private theorem Child.rel_of_map_eq {a : Arity} {c d : Child SharedNode SharedRow a} (h : c.map f g = d.map f g)
    (hc : c.Avoids region) (hd : d.Avoids region') :
    c.Rel (Option.Rel (Paired (Node.Avoids region) (Node.Avoids region') f))
      (Paired (Row.Avoids region) (Row.Avoids region') g) d := by
  cases c with
  | one m =>
    cases d with
    | one n => exact .one (.some ⟨Child.one.inj h, hc.1 m List.mem_cons_self, hd.1 n List.mem_cons_self⟩)
  | opt m =>
    cases d with
    | opt n =>
      refine .opt (optRel_of_map_eq (Child.opt.inj h) ?_)
      rintro m rfl n rfl image
      exact ⟨image, hc.1 m List.mem_cons_self, hd.1 n List.mem_cons_self⟩
  | row r =>
    cases d with
    | row q =>
      exact .row ⟨Child.row.inj h, ⟨hc.2 r List.mem_cons_self, hc.1⟩, ⟨hd.2 q List.mem_cons_self, hd.1⟩⟩
  | optRow r =>
    cases d with
    | optRow q =>
      have rows : Option.Rel (Paired (Row.Avoids region) (Row.Avoids region') g) r q := by
        refine optRel_of_map_eq (Child.optRow.inj h) ?_
        rintro r rfl q rfl image
        exact ⟨image, ⟨hc.2 r List.mem_cons_self, hc.1⟩, ⟨hd.2 q List.mem_cons_self, hd.1⟩⟩
      cases rows with
      | none => exact .noRow
      | some paired => exact .optRow paired

/-- Slots with the same images are related. -/
theorem Fields.rel_of_map_eq {ss : List Slot} {fs gs : Fields SharedNode SharedRow ss} (h : fs.map f g = gs.map f g)
    (hf : fs.Avoids region) (hg : gs.Avoids region') :
    fs.Rel (Option.Rel (Paired (Node.Avoids region) (Node.Avoids region') f))
      (Paired (Row.Avoids region) (Row.Avoids region') g) gs := by
  induction fs with
  | nil =>
    cases gs with
    | nil => exact .nil
  | cons c rest ih =>
    cases gs with
    | cons d others =>
      obtain ⟨first, images⟩ := Fields.cons.inj h
      obtain ⟨hc, hrest⟩ := Fields.avoids_cons.mp hf
      obtain ⟨hd, hothers⟩ := Fields.avoids_cons.mp hg
      exact .cons (Child.rel_of_map_eq first hc hd) (ih images hrest hothers)

end Rel

namespace Pass

/-! ### Two computations -/

/-- Both computations succeed with related results, or both stop in the same way. -/
inductive Ends {α β : Type} (R : α → β → Prop) : Except Halt α → Except Halt β → Prop
  | ok {a : α} {b : β} (h : R a b) : Ends R (.ok a) (.ok b)
  | error (e : Halt) : Ends R (.error e) (.error e)

variable {π ω α β γ δ : Type}

/-- A run that is fair at the end of a computation is fair at its beginning. -/
def Backward (fair : π → ω → Prop) (x : EStateM Halt π α) : Prop := ∀ p q, fair (after (x p)) q → fair p q

section Backward

variable {fair : π → ω → Prop} {x : EStateM Halt π α} {f : α → EStateM Halt π β}

theorem Backward.pure (a : α) : Backward fair (pure a : EStateM Halt π α) := fun _ _ h => h

theorem Backward.throw (e : Halt) : Backward fair (throw e : EStateM Halt π α) := fun _ _ h => h

/-- A run that is fair after two computations in a row is fair between them. -/
theorem Backward.after_bind (hf : ∀ a, Backward fair (f a)) {p : π} {q : ω} (h : fair (after ((x >>= f) p)) q) :
    fair (after (x p)) q := by
  cases hx : x p with
  | ok a p' =>
    rw [bind_of_ok hx] at h
    exact hf a p' q h
  | error e p' =>
    rw [bind_of_error hx] at h
    exact h

theorem Backward.bind (hx : Backward fair x) (hf : ∀ a, Backward fair (f a)) : Backward fair (x >>= f) :=
  fun p q h => hx p q (Backward.after_bind hf h)

end Backward

/-- From points that are level, two computations get to points that are level and to related results, as long as the
two runs are fair in the end. -/
structure Parallel (level fair : π → ω → Prop) (x : EStateM Halt π α) (y : EStateM Halt ω β) (R : α → β → Prop) :
    Prop where
  left : Backward fair x
  right : Backward (flip fair) y
  run : ∀ p q, level p q → fair (after (x p)) (after (y q)) →
    level (after (x p)) (after (y q)) ∧ Ends R (outcome (x p)) (outcome (y q))

namespace Parallel

variable {level fair : π → ω → Prop} {x : EStateM Halt π α} {y : EStateM Halt ω β} {R : α → β → Prop}
  {S : γ → δ → Prop}

protected theorem pure {a : α} {b : β} (h : R a b) : Parallel level fair (pure a) (pure b) R :=
  ⟨.pure a, .pure b, fun _ _ here _ => ⟨here, .ok h⟩⟩

protected theorem throw (e : Halt) : Parallel level fair (throw e) (throw e) R :=
  ⟨.throw e, .throw e, fun _ _ here _ => ⟨here, .error e⟩⟩

/-- What two such computations come to. -/
theorem ends (h : Parallel level fair x y R) {p : π} {q : ω} (here : level p q)
    (fairly : fair (after (x p)) (after (y q))) :
    (∃ a p' b q', x p = .ok a p' ∧ y q = .ok b q' ∧ level p' q' ∧ R a b) ∨
      ∃ e p' q', x p = .error e p' ∧ y q = .error e q' ∧ level p' q' := by
  obtain ⟨there, ends⟩ := h.run p q here fairly
  cases hx : x p with
  | ok a p' =>
    cases hy : y q with
    | ok b q' =>
      rw [hx, hy] at there ends
      cases ends with
      | ok related => exact .inl ⟨a, p', b, q', rfl, rfl, there, related⟩
    | error e q' =>
      rw [hx, hy] at ends
      cases ends
  | error e p' =>
    cases hy : y q with
    | ok b q' =>
      rw [hx, hy] at ends
      cases ends
    | error e' q' =>
      rw [hx, hy] at there ends
      cases ends with
      | error e => exact .inr ⟨e, p', q', rfl, rfl, there⟩

/-- More may be claimed of the results if it follows from what the computations come to, from points that are level at
points that are level. -/
theorem imp (h : Parallel level fair x y R) {T : α → β → Prop}
    (hR : ∀ p q a b p' q', level p q → x p = .ok a p' → y q = .ok b q' → level p' q' → fair p' q' → R a b → T a b) :
    Parallel level fair x y T := by
  refine ⟨h.left, h.right, fun p q here fairly => ?_⟩
  rcases h.ends here fairly with ⟨a, p', b, q', hx, hy, there, related⟩ | ⟨e, p', q', hx, hy, there⟩
  · rw [hx, hy] at fairly ⊢
    exact ⟨there, .ok (hR p q a b p' q' here hx hy there fairly related)⟩
  · rw [hx, hy]
    exact ⟨there, .error e⟩

theorem mono (h : Parallel level fair x y R) {T : α → β → Prop} (hR : ∀ a b, R a b → T a b) :
    Parallel level fair x y T := h.imp fun _ _ a b _ _ _ _ _ _ _ => hR a b

/-- Two computations and what follows them. The runs are fair between the two steps, since they are so in the end. -/
protected theorem bind {f : α → EStateM Halt π γ} {g : β → EStateM Halt ω δ} (first : Parallel level fair x y R)
    (hf : ∀ a, Backward fair (f a)) (hg : ∀ b, Backward (flip fair) (g b))
    (next : ∀ a b, R a b → Parallel level fair (f a) (g b) S) : Parallel level fair (x >>= f) (y >>= g) S := by
  refine ⟨first.left.bind hf, first.right.bind hg, fun p q here fairly => ?_⟩
  have right : flip fair (after (y q)) (after ((x >>= f) p)) := Backward.after_bind hg fairly
  have between : fair (after (x p)) (after (y q)) := Backward.after_bind hf right
  rcases first.ends here between with ⟨a, p', b, q', hx, hy, there, related⟩ | ⟨e, p', q', hx, hy, there⟩
  · rw [bind_of_ok hx, bind_of_ok hy] at fairly ⊢
    exact (next a b related).run p' q' there fairly
  · rw [bind_of_error hx, bind_of_error hy]
    exact ⟨there, .error e⟩

/-- What is done with the results at the end. -/
theorem bind_pure {f : α → γ} {g : β → δ} (first : Parallel level fair x y R) (h : ∀ a b, R a b → S (f a) (g b)) :
    Parallel level fair (x >>= fun a => pure (f a)) (y >>= fun b => pure (g b)) S :=
  first.bind (fun _ => .pure _) (fun _ => .pure _) fun a b hab => .pure (h a b hab)

end Parallel

/-! ### Visits of slots -/

section Traverse

variable {ρ : Type} (visit : SharedNode → EStateM Halt π (Option α)) (row : SharedRow → EStateM Halt π ρ)

/-- Visits a node if there is one. -/
def traverseOpt : Option SharedNode → EStateM Halt π (Option α)
  | none => pure none
  | some n => visit n

/-- Visits what is in a slot, for any visits of nodes and of rows. -/
def traverseChild (parent : Kind) (label : String) :
    {a : Arity} → Child SharedNode SharedRow a → EStateM Halt π (Child α ρ a)
  | _, .one n => do
    match ← traverseOpt visit (some n) with
    | some m => return .one m
    | none => throw (.failed (.requiredRemoved parent label))
  | _, .opt n => return .opt (← traverseOpt visit n)
  | _, .row r => return .row (← row r)
  | _, .optRow none => return .optRow none
  | _, .optRow (some r) => return .optRow (some (← row r))

/-- Visits the slots of a node in order. -/
def traverseFields (parent : Kind) : {ss : List Slot} → Fields SharedNode SharedRow ss → EStateM Halt π (Fields α ρ ss)
  | _, .nil => return .nil
  | _, @Fields.cons _ _ s _ c rest => do
    let c ← traverseChild visit row parent s.label c
    let rest ← traverseFields parent rest
    return .cons c rest

end Traverse

section Instances

variable {σ : Type} (parent : Kind) (label : String)

private theorem visitChild_eq (visit : SharedNode → Run σ (Option SharedNode)) {a : Arity}
    (c : Child SharedNode SharedRow a) :
    visitChild visit parent label c = traverseChild visit (visitRowWith visit) parent label c := by
  cases c with
  | one n => exact congrArg (visit n >>= ·) (funext fun answer => by cases answer <;> rfl)
  | opt n => cases n <;> rfl
  | row r => rfl
  | optRow r => cases r <;> rfl

/-- The visits of the slots in a pass. -/
theorem visitFields_eq (visit : SharedNode → Run σ (Option SharedNode)) {ss : List Slot}
    (fs : Fields SharedNode SharedRow ss) :
    visitFields visit parent fs = traverseFields visit (visitRowWith visit) parent fs := by
  induction fs with
  | nil => rfl
  | cons c rest ih => rw [visitFields, traverseFields, ih, visitChild_eq]

private theorem Plain.visitChild_eq (visit : SharedNode → Plain.Run σ (Option Shape)) {a : Arity}
    (c : Child SharedNode SharedRow a) :
    Plain.visitChild visit parent label c = traverseChild visit (Plain.visitRowWith visit) parent label c := by
  cases c with
  | one n => exact congrArg (visit n >>= ·) (funext fun answer => by cases answer <;> rfl)
  | opt n => cases n <;> rfl
  | row r => rfl
  | optRow r => cases r <;> rfl

/-- The visits of the slots without sharing. -/
theorem Plain.visitFields_eq (visit : SharedNode → Plain.Run σ (Option Shape)) {ss : List Slot}
    (fs : Fields SharedNode SharedRow ss) :
    Plain.visitFields visit parent fs = traverseFields visit (Plain.visitRowWith visit) parent fs := by
  induction fs with
  | nil => rfl
  | cons c rest ih => rw [Plain.visitFields, traverseFields, ih, Plain.visitChild_eq]

end Instances

namespace Parallel

variable {ρ τ κ ι : Type} {level fair : π → ω → Prop} {visit : SharedNode → EStateM Halt π (Option α)}
  {row : SharedRow → EStateM Halt π ρ} {visit' : SharedNode → EStateM Halt ω (Option β)}
  {row' : SharedRow → EStateM Halt ω τ} {A : Option SharedNode → Option SharedNode → Prop}
  {B : SharedRow → SharedRow → Prop} {f : α → κ} {u : β → κ} {g : ρ → ι} {v : τ → ι}
  (hA : ∀ n n', A n n' → Parallel level fair (traverseOpt visit n) (traverseOpt visit' n')
    (fun a a' => a.map f = a'.map u))
  (hB : ∀ r r', B r r' → Parallel level fair (row r) (row' r') (fun q q' => g q = v q'))

include hA hB

private theorem child (parent : Kind) (label : String) {a : Arity} {c d : Child SharedNode SharedRow a}
    (h : c.Rel A B d) :
    Parallel level fair (traverseChild visit row parent label c) (traverseChild visit' row' parent label d)
      (fun c d => c.map f g = d.map u v) := by
  cases h with
  | one h =>
    refine (hA _ _ h).bind ?left ?right ?both
    case left | right =>
      intro answer
      cases answer with
      | none => exact .throw _
      | some m => exact .pure _
    intro answer answer' images
    cases answer <;> cases answer'
    · exact .throw _
    · cases images
    · cases images
    · exact .pure (congrArg Child.one (Option.some.inj images))
  | opt h => exact (hA _ _ h).bind_pure fun _ _ images => congrArg Child.opt images
  | row h => exact (hB _ _ h).bind_pure fun _ _ images => congrArg Child.row images
  | noRow => exact .pure rfl
  | optRow h => exact (hB _ _ h).bind_pure fun _ _ images => congrArg (fun r => Child.optRow (some r)) images

/-- The visits of slots that are related run in parallel if those of nodes and rows do so. -/
theorem fields (parent : Kind) {ss : List Slot} {fs gs : Fields SharedNode SharedRow ss} (h : fs.Rel A B gs) :
    Parallel level fair (traverseFields visit row parent fs) (traverseFields visit' row' parent gs)
      (fun fs gs => fs.map f g = gs.map u v) := by
  induction h with
  | nil => exact .pure rfl
  | @cons s ss c d cs ds h _ ih =>
    refine (child hA hB parent s.label h).bind (fun _ => ih.left.bind fun _ => .pure _)
      (fun _ => ih.right.bind fun _ => .pure _) fun c' d' first => ih.bind_pure fun cs' ds' others => ?_
    show Fields.cons _ _ = Fields.cons _ _
    rw [first, others]

end Parallel

end Pass

end SharedTree
