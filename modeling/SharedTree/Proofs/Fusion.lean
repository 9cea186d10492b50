import SharedTree.Proofs.Becoming
import SharedTree.Proofs.Refinement

/-!
# Passes one after the other

A function on nodes is `Leafwise` if it keeps all nodes that are not terminal, and answers a terminal node with a
terminal node or with none. Two passes with such functions, the second one over the result of the first, do the same as
one pass with the composition.

* `Plain.visitFields_agree`: a plain visit of what has become of some slots agrees with a plain visit of the slots
  themselves, if this is so for the nodes one by one.
* `Descends.agree`: the induction over the levels, at the nodes of the first pass.
* `Runner.descend_fuses` is the statement for three runs of a runner.
-/

namespace SharedTree.Pass

variable {σ α β γ δ : Type}

/-! ### Plain runs that agree -/

namespace Plain

/-- Two computations that come to the same, from whatever states. -/
abbrev Agree (x : Run σ α) (y : Run γ α) : Prop := Parallel (fun _ _ => True) (fun _ _ => True) x y Eq

section Agree

variable {x : Run σ α} {y : Run γ α}

private theorem Agree.of_outcome (h : ∀ s s', outcome (x s) = outcome (y s')) : Agree x y := by
  refine ⟨fun _ _ _ => trivial, fun _ _ _ => trivial, fun s s' _ _ => ⟨trivial, ?_⟩⟩
  rw [h s s']
  cases outcome (y s') with
  | ok a => exact .ok rfl
  | error e => exact .error e

private theorem Agree.outcome_eq (h : Agree x y) (s : σ) (s' : γ) : outcome (x s) = outcome (y s') := by
  have ends := (h.run s s' trivial trivial).2
  generalize outcome (x s) = a at ends ⊢
  generalize outcome (y s') = b at ends ⊢
  cases ends with
  | ok h => exact congrArg Except.ok h
  | error e => rfl

theorem Agree.bind {f : α → Run σ β} {g : α → Run γ β} (hx : Agree x y) (hf : ∀ a, Agree (f a) (g a)) :
    Agree (x >>= f) (y >>= g) :=
  Parallel.bind hx (fun a => (hf a).left) (fun a => (hf a).right) fun a _ h => h ▸ hf a

theorem Agree.symm (h : Agree x y) : Agree y x := .of_outcome fun s s' => (h.outcome_eq s' s).symm

/-- What a computation with a known outcome comes to does not matter for what follows. -/
theorem Agree.skip {a : α} {f : α → Run σ β} {y : Run γ β} (hx : ∀ s, outcome (x s) = .ok a) (hf : Agree (f a) y) :
    Agree (x >>= f) y := by
  refine .of_outcome fun s s' => ?_
  rw [bind_of_ok (outcome_eq_ok (hx s))]
  exact hf.outcome_eq _ s'

variable {v : SharedNode → Run σ (Option Shape)} {w : SharedNode → Run γ (Option Shape)}
  {R : SharedNode → Option SharedNode → Prop} (hdrop : ∀ n, R n none → ∀ s, outcome (w n s) = .ok none)
  (hkeep : ∀ n m, R n (some m) → Agree (w n) (v m))

include hdrop hkeep

private theorem visitItems_agree {ns ms : List SharedNode} (h : ItemsBecome R ns ms) :
    Agree (visitItems w ns) (visitItems v ms) := by
  induction h with
  | nil => exact .pure rfl
  | @drop n ns ms h rest ih =>
    refine .skip (hdrop n h) ?_
    show Agree (visitItems w ns >>= fun items => Pure.pure ([] ++ items)) _
    simpa only [List.nil_append, bind_pure] using ih
  | @keep n m ns ms h rest ih => exact (hkeep n m h).bind fun _ => ih.bind fun _ => .pure rfl

private theorem visitRowWith_agree {r q : SharedRow} (h : r.Becomes R q) :
    Agree (visitRowWith w r) (visitRowWith v q) := by
  unfold visitRowWith
  rw [h.span]
  exact (visitItems_agree hdrop hkeep h.items).bind fun _ => .pure rfl

private theorem visitOpt_agree {n m : Option SharedNode} (h : OptBecomes R n m) :
    Agree (traverseOpt w n) (traverseOpt v m) := by
  cases h with
  | absent => exact .pure rfl
  | @visited n _ h =>
    cases m with
    | none => exact .of_outcome fun s _ => hdrop n h s
    | some m => exact hkeep n m h

/-- A visit of what has become of slots agrees with a visit of the slots, if this is so for the nodes. -/
theorem visitFields_agree (parent : Kind) {ss : List Slot} {fs gs : Fields SharedNode SharedRow ss}
    (h : fs.Becomes R gs) : Agree (visitFields w parent fs) (visitFields v parent gs) := by
  rw [visitFields_eq, visitFields_eq]
  refine (Parallel.fields (f := id) (u := id) (g := id) (v := id) ?_ ?_ parent h).mono fun fs gs images => ?_
  · exact fun n m becomes => (visitOpt_agree hdrop hkeep becomes).mono fun _ _ same => congrArg _ same
  · exact fun r q becomes => visitRowWith_agree hdrop hkeep becomes
  · rwa [fs.map_id, gs.map_id] at images

end Agree

end Plain

/-! ### Functions on leaves -/

/-- A function that keeps what is not terminal, and does not make it of what is. -/
structure Leafwise (f : SharedNode → Option SharedNode) : Prop where
  inner : ∀ n, n.kind.isTerminal = false → f n = some n
  leaf : ∀ n m, n.kind.isTerminal = true → f n = some m → m.kind.isTerminal = true

section Leafwise

variable {f g : SharedNode → Option SharedNode} {region limit budget : Nat}

/-- Two visits agree if the functions answer alike and the descents below the answers agree. -/
private theorem Plain.visitWith_agree {below : SharedNode → Plain.Run (Logged σ) Shape}
    {below' : SharedNode → Plain.Run (Logged γ) Shape} {n m : SharedNode}
    (h : Option.Rel (fun a b => Plain.Agree (below a) (below' b)) (f n) (g m)) :
    Plain.Agree (Plain.visitWith (Transform.ofFunction f).recorded below n)
      (Plain.visitWith (Transform.ofFunction g).recorded below' m) := by
  unfold Plain.visitWith
  refine .skip (a := f n) (fun _ => rfl) (Plain.Agree.symm (.skip (a := g m) (fun _ => rfl) (Plain.Agree.symm ?_)))
  generalize f n = a at h ⊢
  generalize g m = b at h ⊢
  cases h with
  | none => exact .pure rfl
  | some below => exact below.bind fun _ => .pure rfl

private theorem Plain.visitWith_removed {below : SharedNode → Plain.Run (Logged σ) Shape} {n : SharedNode}
    (h : f n = none) (s : Logged σ) :
    outcome (Plain.visitWith (Transform.ofFunction f).recorded below n s) = .ok none := by
  have asked : outcome (Plain.ask (Transform.ofFunction f).recorded n s) = .ok (f n) := rfl
  unfold Plain.visitWith
  rw [bind_of_ok (outcome_eq_ok asked), h]
  rfl

private theorem Plain.descend_agree_of_terminal {n : SharedNode} (hn : n.kind.isTerminal = true) (t : Transform σ)
    (t' : Transform γ) : Plain.Agree (Plain.descend t limit budget n) (Plain.descend t' limit budget n) := by
  cases budget with
  | zero => exact .throw _
  | succ budget =>
    rw [Plain.descend_terminal t limit budget hn, Plain.descend_terminal t' limit budget hn]
    exact .pure rfl

/-- A visit with the composition agrees with a visit of what a visit with the first function has made. -/
private theorem Visits.agree (hf : Leafwise f) (hg : Leafwise g)
    (below : ∀ {n m : SharedNode}, n.Avoids region →
      Descends region (Transform.ofFunction f : Transform σ) limit budget n m →
        Plain.Agree
          (Plain.descend (Transform.ofFunction fun n => (f n).bind g : Transform σ).recorded limit budget n)
          (Plain.descend (Transform.ofFunction g : Transform σ).recorded limit budget m))
    {n m : SharedNode} (h : Visits region (Transform.ofFunction f : Transform σ) limit budget n (some m)) :
    Plain.Agree
      (Plain.visit (Transform.ofFunction fun n => (f n).bind g : Transform σ).recorded limit budget n)
      (Plain.visit (Transform.ofFunction g : Transform σ).recorded limit budget m) := by
  cases h with
  | @answered k _ s answer avoid descends =>
    have hk : f n = some k := Except.ok.inj answer
    apply Plain.visitWith_agree
    cases hn : n.kind.isTerminal with
    | true =>
      -- the answer is a leaf and has been left as it is, so that the second function is asked about it
      have leaf := hf.leaf n k hn hk
      obtain ⟨-, rfl⟩ := descends.terminal leaf
      simp only [hk, Option.bind_some]
      cases hb : g m with
      | none => exact .none
      | some b => exact .some (Plain.descend_agree_of_terminal (hg.leaf m b leaf hb) _ _)
    | false =>
      obtain rfl : n = k := Option.some.inj ((hf.inner n hn).symm.trans hk)
      have inner : m.kind.isTerminal = false := by
        obtain ⟨less, h, fs, -, rfl, -⟩ := descends.inner avoid hn
        exact hn
      simp only [hk, Option.bind_some, hg.inner n hn, hg.inner m inner]
      exact .some (below avoid descends)

/-- A descent with the composition agrees with a descent below what a descent with the first function has made. -/
theorem Descends.agree (hf : Leafwise f) (hg : Leafwise g) {n m : SharedNode} (ha : n.Avoids region)
    (d : Descends region (Transform.ofFunction f : Transform σ) limit budget n m) :
    Plain.Agree
      (Plain.descend (Transform.ofFunction fun n => (f n).bind g : Transform σ).recorded limit budget n)
      (Plain.descend (Transform.ofFunction g : Transform σ).recorded limit budget m) := by
  induction budget generalizing n m with
  | zero =>
    obtain ⟨p, q, -, h, -⟩ := d
    cases h
  | succ budget ih =>
    cases hn : n.kind.isTerminal with
    | true =>
      obtain ⟨-, rfl⟩ := d.terminal hn
      exact Plain.descend_agree_of_terminal hn _ _
    | false =>
      obtain ⟨less, h, fs, hless, rfl, becomes⟩ := d.inner ha hn
      obtain rfl := Nat.succ.inj hless
      rw [Plain.descend_inner _ _ _ hn, Plain.descend_inner _ limit budget (n := .mk h _ _ _ _ fs) hn]
      refine Plain.Agree.bind (Plain.visitFields_agree ?_ ?_ n.kind becomes) fun _ => .pure rfl
      · intro c removed s
        cases removed with
        | removed _ answer =>
          have hc : f c = none := Except.ok.inj answer
          exact Plain.visitWith_removed (by rw [hc]; rfl) s
      · exact fun c c' visits => visits.agree hf hg ih

end Leafwise

/-- The outcome of an orderly run is that of the plain run, up to handles. -/
private theorem Runner.Orderly.outcome_eq {r : Runner} {region : Nat} {t : Transform σ} {op : Op} {s : σ}
    (h : r.Orderly region t op s) : (r.perform region t op s).outcome.map op.image =
      outcome (Plain.perform.run t.recorded r.options.limit op (s, [])) := by
  have mirrors := (op.run_mirrors h.avoids).run (.start region op.entry (s, [])) (s, []) ⟨rfl, rfl⟩ h.lawful_after
  rw [← Runner.Orderly.outcome_recorded]
  exact mirrors.2.eq_map.symm

/-- Two passes with functions on leaves, the second one over what the first one has made, come to the same as one pass
with the composition. If both succeed, so does the one pass, with a tree like that of the second one. -/
theorem Runner.descend_fuses (r : Runner) {f g : SharedNode → Option SharedNode} (hf : Leafwise f) (hg : Leafwise g)
    {n m : SharedNode} {region₁ region₂ region₃ : Nat} {s₁ s₂ s₃ : σ}
    (orderly₁ : r.Orderly region₁ (.ofFunction f) (.descend n) s₁)
    (orderly₂ : r.Orderly region₂ (.ofFunction g) (.descend m) s₂)
    (orderly₃ : r.Orderly region₃ (.ofFunction fun n => (f n).bind g) (.descend n) s₃)
    (first : (r.descend? region₁ (.ofFunction f) n s₁).outcome = .ok m) :
    (r.descend? region₃ (.ofFunction fun n => (f n).bind g) n s₃).outcome.map Node.shape =
      (r.descend? region₂ (.ofFunction g) m s₂).outcome.map Node.shape ∧
    ∀ k, (r.descend? region₂ (.ofFunction g) m s₂).outcome = .ok k →
      ∃ k', (r.descend? region₃ (.ofFunction fun n => (f n).bind g) n s₃).outcome = .ok k' ∧ k'.Alike k := by
  have descends : Descends region₁ (.ofFunction f : Transform σ) r.options.limit r.options.limit n m := by
    have succeeds : outcome ((Op.descend n).run (Transform.ofFunction f : Transform σ).recorded r.options.limit
        r.options.limit (.start region₁ (Op.descend n).entry (s₁, []))) = .ok m :=
      Runner.Orderly.outcome_recorded.trans first
    exact ⟨_, _, rfl, outcome_eq_ok succeeds, orderly₁.lawful_after⟩
  have agree := descends.agree hf hg orderly₁.avoids
  have fused : (r.descend? region₃ (.ofFunction fun n => (f n).bind g) n s₃).outcome.map Node.shape =
      (r.descend? region₂ (.ofFunction g) m s₂).outcome.map Node.shape :=
    orderly₃.outcome_eq.trans ((agree.outcome_eq _ _).trans orderly₂.outcome_eq.symm)
  refine ⟨fused, fun k second => ?_⟩
  rw [second] at fused
  cases third : (r.descend? region₃ (.ofFunction fun n => (f n).bind g) n s₃).outcome with
  | error e => rw [third] at fused; cases fused
  | ok k' => rw [third] at fused; exact ⟨k', rfl, Except.ok.inj fused⟩

/-! ### Three leaves in a row -/

/-- Exchanges some leaves for others and removes some. -/
def editing (edits : List (Handle × Option Handle)) (n : SharedNode) : Option SharedNode :=
  if n.kind.isTerminal then
    match edits.lookup n.handle with
    | some answer => answer.map Sample.leaf
    | none => some n
  else some n

private theorem editing_leafwise (edits : List (Handle × Option Handle)) : Leafwise (editing edits) where
  inner n hn := by simp [editing, hn]
  leaf n m hn h := by
    simp only [editing, hn, if_true] at h
    split at h
    · obtain ⟨g, -, rfl⟩ := Option.map_eq_some_iff.mp h
      rfl
    · obtain rfl := Option.some.inj h
      exact hn

/-- Of three leaves in a row, the first pass removes one and exchanges one, and the second pass removes the one that
has come in. The pass with both leaves the third leaf. -/
theorem Runner.descend_fuses_sheaf :
    let f := editing [(⟨0, 0⟩, none), (⟨0, 1⟩, some ⟨5, 0⟩)]
    let g := editing [(⟨5, 0⟩, none)]
    let n := Sample.sheaf [⟨0, 0⟩, ⟨0, 1⟩, ⟨0, 2⟩] ⟨0, 3⟩
    ∃ k, (Sample.runner.descend? 3 (.ofFunction fun n => (f n).bind g) n ()).outcome = .ok k ∧
      k.Alike (Sample.sheaf [⟨0, 2⟩] ⟨2, 0⟩) := by
  intro f g n
  have orderly₁ : Sample.runner.Orderly 1 (.ofFunction f) (.descend n) () := by
    let call (h : Handle) := (Transform.ofFunction f).call (Sample.leaf h) ()
    refine ⟨show n.Avoids 1 by decide, fun c hc => ?_⟩
    replace hc : c ∈ [call ⟨0, 2⟩, call ⟨0, 1⟩, call ⟨0, 0⟩] := hc
    simp only [List.mem_cons, List.not_mem_nil, or_false] at hc
    rcases hc with rfl | rfl | rfl
    · exact .kept rfl (by decide)
    · exact .replaced (m := Sample.leaf ⟨5, 0⟩) rfl (by decide) rfl
    · exact .removed rfl
  have orderly₂ : Sample.runner.Orderly 2 (.ofFunction g) (.descend (Sample.sheaf [⟨5, 0⟩, ⟨0, 2⟩] ⟨1, 0⟩)) () := by
    let call (h : Handle) := (Transform.ofFunction g).call (Sample.leaf h) ()
    refine ⟨show (Sample.sheaf [⟨5, 0⟩, ⟨0, 2⟩] ⟨1, 0⟩).Avoids 2 by decide, fun c hc => ?_⟩
    replace hc : c ∈ [call ⟨0, 2⟩, call ⟨5, 0⟩] := hc
    simp only [List.mem_cons, List.not_mem_nil, or_false] at hc
    rcases hc with rfl | rfl
    · exact .kept rfl (by decide)
    · exact .removed rfl
  have orderly₃ : Sample.runner.Orderly 3 (.ofFunction fun n => (f n).bind g) (.descend n) () := by
    let call (h : Handle) := (Transform.ofFunction fun n => (f n).bind g).call (Sample.leaf h) ()
    refine ⟨show n.Avoids 3 by decide, fun c hc => ?_⟩
    replace hc : c ∈ [call ⟨0, 2⟩, call ⟨0, 1⟩, call ⟨0, 0⟩] := hc
    simp only [List.mem_cons, List.not_mem_nil, or_false] at hc
    rcases hc with rfl | rfl | rfl
    · exact .kept rfl (by decide)
    · exact .removed rfl
    · exact .removed rfl
  exact (Runner.descend_fuses Sample.runner (editing_leafwise _) (editing_leafwise _) orderly₁ orderly₂ orderly₃ rfl).2
    _ rfl

end SharedTree.Pass
