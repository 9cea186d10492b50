import SharedTree.Proofs.Elementwise
import SharedTree.Proofs.Ledger
import SharedTree.Proofs.Origin

/-!
# What a pass makes

A pass makes nothing without need, and it counts the nodes that it makes. A node is made at the end of a descent on the
way of which a node was not kept, and a row at the end of a visit by which an element is dropped or becomes another
node. This holds of runs that fail or break down as well. What came to its end before is on their account.

* `drawings` is the account of the nodes that are made, with the descents that have made them, and `rowDrawings` that of
  the rows.
* `renews_eq_stirs` says that a descent comes back with another node if and only if a call on the way has not kept its
  node.
* `Runner.perform_allocates` is the statement for a run of a runner.
-/

namespace SharedTree.Pass

open Transform (Call)

variable {σ α : Type}

/-! ### Nodes -/

/-- The descent that begins at a moment comes back with a node that has a given handle. This is the node of the descent
but for the handle and the slots, and what is in the slots is not the same. -/
inductive Moment.Makes (t : Transform σ) (limit : Nat) (h : Handle) : Moment σ → Prop
  | intro {above : List SharedNode} {place : Place} {n : SharedNode}
      {fields : Fields SharedNode SharedRow n.kind.slots} {p q : Progress σ} (changed : n.fields.same fields = false)
      (run : Moment.run t limit ⟨above, place, .descend n, p⟩ = .ok (.mk h n.span n.flags n.kind n.payload fields) q) :
      Makes t limit h ⟨above, place, .descend n, p⟩

/-- The handles that are drawn for nodes between two points of a run: each is counted, and one of the moments in between
tells what it is for. -/
structure Draws (t : Transform σ) (limit region : Nat) (p q : Progress σ) (ms : List (Moment σ)) : Prop where
  here : q.supply.region = region
  counted : q.supply.nodes + p.stats.rebuilt = p.supply.nodes + q.stats.rebuilt
  made : ∀ i, p.supply.nodes ≤ i → i < q.supply.nodes → ∃ m ∈ ms, m.Makes t limit ⟨region, i⟩

section Draws

variable {t : Transform σ} {limit region : Nat} {p q r : Progress σ} {ms ns : List (Moment σ)}

theorem Draws.none (hp : p.supply.region = region) (supply : q.supply = p.supply)
    (rebuilt : q.stats.rebuilt = p.stats.rebuilt) : Draws t limit region p q ms := by
  refine ⟨supply ▸ hp, ?_, fun i lo hi => ?_⟩
  · rw [supply, rebuilt]
  · rw [supply] at hi
    omega

theorem Draws.append (first : Draws t limit region p q ms) (second : Draws t limit region q r ns) :
    Draws t limit region p r (ms ++ ns) := by
  refine ⟨second.here, ?_, fun i lo hi => ?_⟩
  · have := first.counted
    have := second.counted
    omega
  · rcases Nat.lt_or_ge i q.supply.nodes with before | behind
    · obtain ⟨m, hm, makes⟩ := first.made i lo before
      exact ⟨m, List.mem_append_left ns hm, makes⟩
    · obtain ⟨m, hm, makes⟩ := second.made i behind hi
      exact ⟨m, List.mem_append_right ms hm, makes⟩

theorem Draws.cons (m : Moment σ) (h : Draws t limit region p q ms) : Draws t limit region p q (m :: ms) := by
  refine ⟨h.here, h.counted, fun i lo hi => ?_⟩
  obtain ⟨m', hm, makes⟩ := h.made i lo hi
  exact ⟨m', List.mem_cons_of_mem m hm, makes⟩

/-- A descent that gives its node other children draws one handle at its end. -/
theorem Draws.node {above : List SharedNode} {place : Place} {n : SharedNode}
    {fields : Fields SharedNode SharedRow n.kind.slots} (h : Draws t limit region p q ms)
    (run : Moment.run t limit ⟨above, place, .descend n, p⟩ = rebuild n fields q)
    (changed : n.fields.same fields = false) (new : n.handle.region ≠ region) :
    Draws t limit region p (after (rebuild n fields q)) (⟨above, place, .descend n, p⟩ :: ms) := by
  rw [rebuild_renewed changed (h.here ▸ new)] at run ⊢
  refine ⟨h.here, ?_, fun i lo hi => ?_⟩
  · have := h.counted
    show q.supply.nodes + 1 + p.stats.rebuilt = p.supply.nodes + (q.stats.rebuilt + 1)
    omega
  · change i < q.supply.nodes + 1 at hi
    rcases Nat.lt_or_ge i q.supply.nodes with before | last
    · exact (h.cons _).made i lo before
    · obtain rfl : i = q.supply.nodes := by omega
      refine ⟨_, List.mem_cons_self, ?_⟩
      rw [← h.here]
      exact .intro changed run

end Draws

/-- Every node that is drawn is counted and has been made by a descent, as long as the handles are new. -/
theorem drawings (t : Transform σ) (limit region : Nat) :
    Ledger t limit fun p q ms =>
      (∀ m ∈ ms, m.op.Avoids region) → p.supply.region = region → Draws t limit region p q ms where
  nil _ := fun _ hp => .none hp rfl rfl
  append first second := fun avoid hp => by
    rw [List.forall_mem_append] at avoid
    have one := first avoid.1 hp
    exact one.append (second avoid.2 one.here)
  asked _ _ n p := fun _ hp => .none hp rfl (p.stats.heed_rebuilt n (t n p.state).answer)
  absent _ _ _ := fun _ hp => .none hp rfl rfl
  deepened _ _ := fun _ hp => .none hp rfl rfl
  rowKept _ inside := fun avoid hp => (inside (List.forall_mem_cons.mp avoid).2 hp).cons _
  rowMade _ inside := fun avoid hp => by
    obtain ⟨here, counted, made⟩ := inside (List.forall_mem_cons.mp avoid).2 hp
    exact .cons _ ⟨here, counted, made⟩
  nodeKept _ inside := fun avoid hp => (inside (List.forall_mem_cons.mp avoid).2 hp).cons _
  nodeMade run changed inside := fun avoid hp => by
    obtain ⟨new, others⟩ := List.forall_mem_cons.mp avoid
    exact (inside others hp).node run changed (Node.avoids_iff.mp new).1

/-- Whether the descent that begins at a moment comes to its end and a call on the way has not kept its node. -/
def Moment.stirs (t : Transform σ) (limit : Nat) : Moment (Logged σ) → Bool
  | ⟨above, _, .descend n, p⟩ =>
    match descend t.recorded limit (limit - above.length) n p with
    | .ok _ q => (callsBetween p q).any fun c => !c.kept
    | .error _ _ => false
  | _ => false

/-- A descent comes back with another node if and only if a call on the way has not kept its node. -/
theorem renews_eq_stirs {r : Runner} {region : Nat} {t : Transform σ} {op : Op} {s : σ}
    (orderly : r.Orderly region t op s) {m : Moment (Logged σ)} (hm : m ∈ r.moments region t.recorded op (s, [])) :
    m.renews t.recorded r.options.limit = m.stirs t r.options.limit := by
  obtain ⟨avoids, here, lawful⟩ := orderly.at_moment hm
  obtain ⟨above, place, op, p⟩ := m
  cases op with
  | visit n => rfl
  | visitRow row => rfl
  | descend n =>
    change (after (descend t.recorded r.options.limit (r.options.limit - above.length) n p)).Lawful region at lawful
    cases h : descend t.recorded r.options.limit (r.options.limit - above.length) n p with
    | error e q => simp only [Moment.renews, Moment.stirs, h]
    | ok k q =>
      rw [h] at lawful
      simp only [Moment.renews, Moment.stirs, h]
      have later : Later p q := .of_moves (descend_moves _ n) h
      rcases descend_shares _ n avoids p k q here h lawful with ⟨rfl, calm⟩ | ⟨new, stirred⟩
      · have kept : (callsBetween p q).any (fun c => !c.kept) = false := by
          simpa only [List.any_eq_false, Bool.not_eq_true', Bool.not_eq_false] using calm.kept later
        rw [kept, k.same_self]
        rfl
      · have stray : (callsBetween p q).any (fun c => !c.kept) = true := by
          simpa only [List.any_eq_true, Bool.not_eq_true'] using stirred.not_kept later
        rw [stray, Node.not_same_of_region new (Node.avoids_iff.mp avoids).1]
        rfl

/-! ### Rows -/

/-- Whether the visits of the elements of a row all come to their end and one of them has removed its element or has
come back with another node. -/
def Moment.alters (t : Transform σ) (limit : Nat) : Moment σ → Bool
  | ⟨above, _, .visitRow r, p⟩ =>
    match r.items.mapM (visit t limit (limit - above.length)) p with
    | .ok answers _ => (r.items.zip answers).any fun (n, answer) => !sameOpt Node.same answer (some n)
    | .error _ _ => false
  | _ => false

/-- The visits of some elements, one after the other, tell whether anything is changed. -/
private theorem visitItems_answers (visit : SharedNode → Run σ (Option SharedNode)) (items : List SharedNode)
    (p : Progress σ) :
    (∃ answers changed q, items.mapM visit p = .ok answers q ∧ visitItems visit items p = .ok changed q ∧
      changed.isSome = (items.zip answers).any fun (n, answer) => !sameOpt Node.same answer (some n)) ∨
    ∃ e q, items.mapM visit p = .error e q ∧ visitItems visit items p = .error e q := by
  rcases inTurn_or_fails visit items p with
    ⟨answers, q, h⟩ | ⟨before, n, behind, answers, q, e, q', rfl, h, failed⟩
  · obtain ⟨changed, visited, sifted⟩ := visitItems_sifted h
    have still := h.unmoved_iff
    refine .inl ⟨answers, changed, q, mapM_of_inTurn h, visited, ?_⟩
    cases changed with
    | none => exact (still.mp sifted).symm
    | some made => exact (eq_true_of_ne_false fun calm => sifted.1 (still.mpr calm)).symm
  · exact .inr ⟨e, q', mapM_fails h failed behind, visitItems_fails h failed behind⟩

/-- A row is drawn when the visits of its elements have changed something, and only then. -/
theorem rowDrawings (t : Transform σ) (limit : Nat) :
    Ledger t limit fun p q ms => q.supply.rows = ms.countP (Moment.alters t limit) + p.supply.rows where
  nil _ := (Nat.zero_add _).symm
  append first second := by
    rw [List.countP_append]
    omega
  asked _ _ _ _ := (Nat.zero_add _).symm
  absent _ _ _ := (Nat.zero_add _).symm
  deepened _ _ := (Nat.zero_add _).symm
  rowKept {above place r p q ms} visits inside := by
    have kept : Moment.alters t limit ⟨above, place, .visitRow r, p⟩ = false := by
      rcases visitItems_answers (visit t limit (limit - above.length)) r.items p with
        ⟨answers, changed, q', listed, visited, tells⟩ | ⟨e, q', listed, -⟩
      · rw [visited] at visits
        rcases visits with same | ⟨e, failed⟩
        · cases same
          simp only [Moment.alters, listed]
          exact tells.symm
        · cases failed
      · simp only [Moment.alters, listed]
    rwa [List.countP_cons_of_neg (by simp [kept])]
  rowMade {above place r items p q ms} visits inside := by
    have made : Moment.alters t limit ⟨above, place, .visitRow r, p⟩ = true := by
      rcases visitItems_answers (visit t limit (limit - above.length)) r.items p with
        ⟨answers, changed, q', listed, visited, tells⟩ | ⟨e, q', -, visited⟩
      · rw [visited] at visits
        cases visits
        simp only [Moment.alters, listed]
        exact tells.symm
      · rw [visited] at visits
        cases visits
    rw [List.countP_cons_of_pos made]
    show q.supply.rows + 1 = _
    omega
  nodeKept _ inside := by rwa [List.countP_cons_of_neg (by simp [Moment.alters])]
  nodeMade _ changed inside := by
    rw [List.countP_cons_of_neg (by simp [Moment.alters]), rebuild_changed changed]
    exact inside

/-! ### The account of a run -/

/-- A pass makes nothing without need, and nothing that is not counted, whether or not it succeeds.

As many handles are drawn for nodes as nodes are counted to have been made again, and as many as there are descents that
come to their end and on the way of which a call has not kept its node. Each is the handle with which a descent comes
back whose node has not the same in all slots. As many handles are drawn for rows as there are rows all elements of
which are visited and one of which is dropped or becomes another node.

If the run succeeds, every handle in what comes back is a handle of what went in, or it occurs in an answer of the
transform, or it is one of those that were drawn. -/
theorem Runner.perform_allocates (r : Runner) (region : Nat) (t : Transform σ) (op : Op) (s : σ)
    (orderly : r.Orderly region t op s) :
    let report := r.perform region t.recorded op (s, [])
    let ms := r.moments region t.recorded op (s, [])
    (report.supply.nodes = report.stats.rebuilt ∧ report.supply.nodes = ms.countP (Moment.stirs t r.options.limit)) ∧
    report.supply.rows = ms.countP (Moment.alters t.recorded r.options.limit) ∧
    (∀ i < report.supply.nodes, ∃ m ∈ ms, m.Makes t.recorded r.options.limit ⟨region, i⟩) ∧
    ∀ a, report.outcome = .ok a →
      (∀ h ∈ op.nodeHandles a,
        Origin (op.nodeHandles op.input) Node.nodeHandles report.state.2 region report.supply.nodes h) ∧
      ∀ h ∈ op.rowHandles a,
        Origin (op.rowHandles op.input) Node.rowHandles report.state.2 region report.supply.rows h := by
  intro report ms
  let limit := r.options.limit
  let start : Progress (Logged σ) := .start region op.entry (s, [])
  have ends : report = r.conclude (op.run t.recorded limit limit start) := r.perform_eq region t.recorded op (s, [])
  have avoid : ∀ m ∈ ms, m.op.Avoids region := fun m hm => (orderly.at_moment hm).1
  have drawn : Draws t.recorded limit region start (after (op.run t.recorded limit limit start)) ms :=
    (drawings t.recorded limit region).of_run op start avoid rfl
  have renewed : (after (op.run t.recorded limit limit start)).stats.rebuilt =
      ms.countP (Moment.renews t.recorded limit) := (renewals t.recorded limit).of_run op start
  have counted : (after (op.run t.recorded limit limit start)).supply.nodes =
      (after (op.run t.recorded limit limit start)).stats.rebuilt := by
    have balance := drawn.counted
    change _ + 0 = 0 + _ at balance
    omega
  have stirred : ms.countP (Moment.renews t.recorded limit) = ms.countP (Moment.stirs t limit) :=
    List.countP_congr fun m hm => by rw [renews_eq_stirs orderly hm]
  rw [ends, conclude_supply, conclude_stats, conclude_state, conclude_outcome]
  refine ⟨⟨counted, counted.trans (renewed.trans stirred)⟩, ?_, ?_, ?_⟩
  · exact (rowDrawings t.recorded limit).of_run op start
  · exact fun i hi => drawn.made i (Nat.zero_le i) hi
  · intro a h
    have run := outcome_eq_ok h
    obtain ⟨hn, hr⟩ := op.run_known limit orderly.avoids (p := start) rfl run orderly.lawful_after
    unfold Progress.KnowsNode at hn
    unfold Progress.KnowsRow at hr
    rw [drawn.here] at hn hr
    exact ⟨hn, hr⟩

/-- When the leaf of a twig becomes another one, one node is made: the twig, at the end of the one descent on the way of
which a node was not kept. No row is made. -/
theorem Runner.perform_allocates_grafted :
    let t := Transform.swapping 1 (some (Sample.leaf ⟨2, 0⟩))
    let limit := Sample.runner.options.limit
    let ms := Sample.runner.moments 1 t.recorded (.visit (some Sample.twig)) (0, [])
    Sample.grafted.supply = { region := 1, nodes := 1, rows := 0 } ∧ ms.countP (Moment.stirs t limit) = 1 ∧
      ms.countP (Moment.alters t.recorded limit) = 0 ∧ ∃ m ∈ ms, m.Makes t.recorded limit ⟨1, 0⟩ := by
  intro t limit ms
  have supply : Sample.grafted.supply = { region := 1, nodes := 1, rows := 0 } := by rfl
  obtain ⟨⟨-, stirred⟩, altered, made, -⟩ := Runner.perform_allocates Sample.runner 1 t (.visit (some Sample.twig)) 0
    ⟨Sample.grafted_avoids, Sample.grafted_lawful⟩
  change Sample.grafted.supply.nodes = _ at stirred
  change Sample.grafted.supply.rows = _ at altered
  change ∀ i < Sample.grafted.supply.nodes, _ at made
  rw [supply] at stirred altered made
  exact ⟨supply, stirred.symm, altered.symm, made 0 Nat.zero_lt_one⟩

end SharedTree.Pass
