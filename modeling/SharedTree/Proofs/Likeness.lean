import SharedTree.Proofs.Refinement

/-!
# Runs on trees that are alike

How handles are shared in a tree cannot be observed. On two trees that are alike, a pass with a transform that treats
alike nodes alike comes to results that are alike, leaves the caller in the same state and counts the same, however
often a handle occurs in either of them.

* `Transform.Call.Matches` says when two calls treat alike nodes alike, and `Transform.Respectful` that all calls of a
  transform do.
* `Twins` relates two computations of two such runs. It is an instance of `Parallel`. The two runs take the same
  decisions, since each of them can be told from the counters (`slots_twins`).
* `Runner.perform_alike` is the statement for two runs of a runner.
-/

namespace SharedTree

/-! ### Alike nodes -/

theorem Node.Alike.parts {m n : SharedNode} (h : m.Alike n) : ∃ g g' span flags k payload fs gs,
    m = .mk g span flags k payload fs ∧ n = .mk g' span flags k payload gs ∧
      fs.map Node.shape Row.image = gs.map Node.shape Row.image := by
  cases m with
  | mk g span flags k payload fs =>
    cases n with
    | mk g' span' flags' k' payload' gs =>
      unfold Node.Alike at h
      rw [Node.shape_eq, Node.shape_eq] at h
      injection h with _ hspan hflags hkind hpayload hfields
      obtain rfl : span = span' := hspan
      obtain rfl : flags = flags' := hflags
      obtain rfl : k = k' := hkind
      obtain rfl : payload = payload' := eq_of_heq hpayload
      exact ⟨g, g', span, flags, k, payload, fs, gs, rfl, rfl, eq_of_heq hfields⟩

theorem Row.alike_iff {r q : SharedRow} : r.Alike q ↔ r.image = q.image := by
  simp [Row.Alike, Row.image, Row.map, Row.shape]

namespace Pass

open Transform (Call)

variable {σ α β γ : Type}

/-! ### Calls that treat alike nodes alike -/

/-- In two calls the nodes are removed, or kept, or replaced by alike nodes, or the transform breaks down with the same
message. -/
inductive Transform.Call.SameAnswer (c d : Call σ) : Prop
  | removed (hc : c.answer = .ok none) (hd : d.answer = .ok none)
  | kept {m n : SharedNode} (hc : c.answer = .ok (some m)) (hd : d.answer = .ok (some n))
      (same : m.same c.node = true ∧ n.same d.node = true)
  | replaced {m n : SharedNode} (hc : c.answer = .ok (some m)) (hd : d.answer = .ok (some n)) (alike : m.Alike n)
      (new : m.same c.node = false ∧ n.same d.node = false)
  | crashed {message : String} (hc : c.answer = .error message) (hd : d.answer = .error message)

/-- If two calls are about alike nodes in the same state, their answers are the same and they end in the same state. -/
def Transform.Call.Matches (c d : Call σ) : Prop :=
  c.node.Alike d.node → c.before = d.before → c.SameAnswer d ∧ c.after = d.after

/-- A transform that treats alike nodes alike. -/
def Transform.Respectful (t : Transform σ) : Prop := ∀ m n s s', (t.call m s).Matches (t.call n s')

private theorem Transform.Respectful.matches {t : Transform σ} (h : t.Respectful) {r r' : Runner} {region region' : Nat}
    {op op' : Op} {s s' : σ} : ∀ c ∈ (r.perform region t.recorded op (s, [])).state.2,
      ∀ d ∈ (r'.perform region' t.recorded op' (s', [])).state.2, c.Matches d := by
  intro c hc d hd
  obtain ⟨n, s, rfl⟩ := Runner.call_of_recorded hc
  obtain ⟨n', s', rfl⟩ := Runner.call_of_recorded hd
  exact h n n' s s'

/-! ### Two runs side by side -/

/-- Two points of two runs at which the callers are in the same state and the counters agree. -/
structure Abreast (region region' : Nat) (p q : Progress (Logged σ)) : Prop where
  left : p.supply.region = region
  right : q.supply.region = region'
  state : p.state.1 = q.state.1
  stats : p.stats = q.stats

/-- Two runs in which handles can be trusted and the calls of one match those of the other. -/
structure Matched (region region' : Nat) (p q : Progress (Logged σ)) : Prop where
  left : p.Lawful region
  right : q.Lawful region'
  calls : ∀ c ∈ p.state.2, ∀ d ∈ q.state.2, c.Matches d

/-- From points abreast of each other, two computations get to such points and come to results with the same image. -/
abbrev Twins (region region' : Nat) (x : Run (Logged σ) α) (y : Run (Logged σ) β) (f : α → γ) (g : β → γ) : Prop :=
  Parallel (Abreast region region') (Matched region region') x y (fun a b => f a = g b)

section Backward

variable {t : Transform σ} {limit region region' : Nat} {x : Run (Logged σ) α}

private theorem Moves.backward_left (hx : Moves t.recorded limit x) : Backward (Matched region region') x :=
  fun p _ matched =>
    have later : Later p (after (x p)) := .of_reaches (hx p)
    ⟨matched.left.of_later later, matched.right, fun c hc => matched.calls c (later.record.mem hc)⟩

private theorem Moves.backward_right (hx : Moves t.recorded limit x) : Backward (flip (Matched region region')) x :=
  fun q _ matched =>
    have later : Later q (after (x q)) := .of_reaches (hx q)
    ⟨matched.left, matched.right.of_later later, fun c hc d hd => matched.calls c hc d (later.record.mem hd)⟩

private theorem backward_left_of_state (hx : ∀ p, (after (x p)).state = p.state) :
    Backward (Matched region region') x :=
  backward_of_state hx fun _ _ _ state matched => ⟨fun c hc => matched.left c (state ▸ hc), matched.right,
    fun c hc => matched.calls c (state ▸ hc)⟩

private theorem backward_right_of_state (hx : ∀ p, (after (x p)).state = p.state) :
    Backward (flip (Matched region region')) x :=
  backward_of_state hx fun _ _ _ state matched => ⟨matched.left, fun c hc => matched.right c (state ▸ hc),
    fun c hc d hd => matched.calls c hc d (state ▸ hd)⟩

end Backward

/-! ### Visits that share -/

section Traversal

variable {region region' : Nat} {visit : SharedNode → Run (Logged σ) (Option SharedNode)}
  (hs : ∀ region (n : SharedNode), n.Avoids region →
    Shares region (visit n) (· = some n) (fun a => ∀ m, a = some m → m.same n = false))
  (ht : ∀ n n' : SharedNode, n.Alike n' → n.Avoids region → n'.Avoids region' →
    Twins region region' (visit n) (visit n') (Option.map Node.shape) (Option.map Node.shape))

include hs ht

private theorem visitItems_twins (items items' : List SharedNode) (h : items.map Node.shape = items'.map Node.shape)
    (ha : ∀ n ∈ items, n.Avoids region) (ha' : ∀ n ∈ items', n.Avoids region') :
    Twins region region' (visitItems visit items) (visitItems visit items')
      (fun changed => (changed.getD items).map Node.shape) (fun changed => (changed.getD items').map Node.shape) := by
  induction items generalizing items' with
  | nil =>
    cases items' with
    | nil => exact .pure rfl
    | cons n' rest' => cases h
  | cons n rest ih =>
    cases items' with
    | nil => cases h
    | cons n' rest' =>
      obtain ⟨alike, shapes⟩ := List.cons.inj h
      obtain ⟨avoid, avoids⟩ := List.forall_mem_cons.mp ha
      obtain ⟨avoid', avoids'⟩ := List.forall_mem_cons.mp ha'
      have others := ih rest' shapes avoids avoids'
      -- in both runs the answer is the node itself where the list is kept
      have first := (ht n n' alike avoid avoid').imp (T := fun a a' => a.map Node.shape = a'.map Node.shape ∧
          (a = some n ∨ ∀ m, a = some m → m.same n = false) ∧ (a' = some n' ∨ ∀ m, a' = some m → m.same n' = false))
        fun p p' a a' q q' here run run' _ matched images => ⟨images,
          (hs region n avoid p a q here.left run matched.left).imp And.left And.left,
          (hs region' n' avoid' p' a' q' here.right run' matched.right).imp And.left And.left⟩
      refine first.bind (fun _ => others.left.bind fun _ => .pure _) (fun _ => others.right.bind fun _ => .pure _) ?_
      rintro answer answer' ⟨image, either, either'⟩
      refine others.bind_pure fun changed changed'
        (images : (changed.getD rest).map Node.shape = (changed'.getD rest').map Node.shape) => ?_
      show ((rejoin n rest answer changed).getD (n :: rest)).map Node.shape =
        ((rejoin n' rest' answer' changed').getD (n' :: rest')).map Node.shape
      rw [rejoin_getD changed either, rejoin_getD changed' either', List.map_append, List.map_append,
        ← Option.toList_map, ← Option.toList_map, image, images]

private theorem visitRowWith_twins {r r' : SharedRow} (h : r.image = r'.image) (ha : r.Avoids region)
    (ha' : r'.Avoids region') :
    Twins region region' (visitRowWith visit r) (visitRowWith visit r') Row.image Row.image := by
  obtain ⟨span, items⟩ := Row.alike_iff.mpr h
  have back (changed) : Backward (Matched region region') (rowOf r changed : Run (Logged σ) SharedRow) :=
    backward_left_of_state (rowOf_state r changed)
  have back' (changed) : Backward (flip (Matched region region')) (rowOf r' changed : Run (Logged σ) SharedRow) :=
    backward_right_of_state (rowOf_state r' changed)
  rw [visitRowWith_eq, visitRowWith_eq]
  refine (visitItems_twins hs ht r.items r'.items items ha.2 ha'.2).bind back back' ?_
  intro changed changed' (images : (changed.getD r.items).map Node.shape = (changed'.getD r'.items).map Node.shape)
  refine ⟨back changed, back' changed', fun p q here _ => ?_⟩
  obtain ⟨q₁, rows, run, image⟩ := rowOf_image r changed p
  obtain ⟨q₁', rows', run', image'⟩ := rowOf_image r' changed' q
  rw [run, run']
  refine ⟨⟨here.left, here.right, here.state, here.stats⟩, .ok ?_⟩
  rw [image, image', span, images]

private theorem visitFields_twins (parent : Kind) {ss : List Slot} {fs fs' : Fields SharedNode SharedRow ss}
    (h : fs.map Node.shape Row.image = fs'.map Node.shape Row.image) (ha : fs.Avoids region)
    (ha' : fs'.Avoids region') :
    Twins region region' (visitFields visit parent fs) (visitFields visit parent fs')
      (Fields.map Node.shape Row.image) (Fields.map Node.shape Row.image) := by
  rw [visitFields_eq, visitFields_eq]
  refine Parallel.fields ?_ ?_ parent (Fields.rel_of_map_eq h ha ha')
  · intro n n' related
    cases related with
    | none => exact .pure rfl
    | some h => exact ht _ _ h.1 h.2.1 h.2.2
  · exact fun r r' h => visitRowWith_twins hs ht h.1 h.2.1 h.2.2

end Traversal

/-! ### The descent -/

section Descend

variable {t : Transform σ} {limit region region' : Nat}

section Visit

variable {below : SharedNode → Run (Logged σ) SharedNode} {n n' : SharedNode} {p q : Progress (Logged σ)}

private theorem Abreast.heed (here : Abreast region region' p q)
    (state : (t.call n p.state.1).after = (t.call n' q.state.1).after)
    (h : ∀ s : Stats, s.heed n (t n p.state.1).answer = s.heed n' (t n' q.state.1).answer) :
    Abreast region region' (p.heed n (t.recorded n p.state)) (q.heed n' (t.recorded n' q.state)) :=
  ⟨here.left, here.right, state, (h p.stats).trans (congrArg (Stats.heed · n' (t n' q.state.1).answer) here.stats)⟩

/-- Two answers, both kept or both new. The visits go on below them. -/
private theorem answered_twins {m m' : SharedNode} (here : Abreast region region' p q)
    (matched : Matched region region' (after (visitWith t.recorded below n p))
      (after (visitWith t.recorded below n' q)))
    (state : (t.call n p.state.1).after = (t.call n' q.state.1).after)
    (hm : (t n p.state.1).answer = .ok (some m)) (hm' : (t n' q.state.1).answer = .ok (some m'))
    (same : m.same n = m'.same n') (twins : Twins region region' (below m) (below m') Node.shape Node.shape) :
    Abreast region region' (after (visitWith t.recorded below n p)) (after (visitWith t.recorded below n' q)) ∧
      Ends (fun a b => a.map Node.shape = b.map Node.shape) (outcome (visitWith t.recorded below n p))
        (outcome (visitWith t.recorded below n' q)) := by
  have heeded : Abreast region region' (p.heed n (t.recorded n p.state)) (q.heed n' (t.recorded n' q.state)) := by
    refine here.heed state fun s => ?_
    rw [hm, hm']
    simp only [Stats.heed, same]
  have answers := twins.bind_pure (f := some) (g := some) (S := fun a b => a.map Node.shape = b.map Node.shape)
    fun _ _ shapes => congrArg some shapes
  rw [visitWith_some (p := p) hm, visitWith_some (p := q) hm'] at matched ⊢
  exact answers.run _ _ heeded matched

variable (hb : ∀ n, Moves t.recorded limit (below n))

include hb

private theorem called_of_visit (n : SharedNode) (p : Progress (Logged σ)) :
    t.call n p.state.1 ∈ (after (visitWith t.recorded below n p)).state.2 :=
  (Later.of_reaches (visitWith_reaches hb n p)).record.mem (by simp [Transform.recorded_state])

private theorem visitWith_twins (ht : ∀ n n' : SharedNode, n.Alike n' → n.Avoids region → n'.Avoids region' →
      Twins region region' (below n) (below n') Node.shape Node.shape) (alike : n.Alike n') :
    Twins region region' (visitWith t.recorded below n) (visitWith t.recorded below n') (Option.map Node.shape)
      (Option.map Node.shape) := by
  refine ⟨(visitWith_moves hb n).backward_left, (visitWith_moves hb n').backward_right, fun p q here matched => ?_⟩
  have lawful := matched.left _ (called_of_visit hb n p)
  have lawful' := matched.right _ (called_of_visit hb n' q)
  obtain ⟨answers, state⟩ := matched.calls _ (called_of_visit hb n p) _ (called_of_visit hb n' q) alike here.state
  cases answers with
  | removed h h' =>
    replace h : (t n p.state.1).answer = .ok none := h
    replace h' : (t n' q.state.1).answer = .ok none := h'
    rw [visitWith_none (p := p) h, visitWith_none (p := q) h']
    exact ⟨here.heed state fun s => by rw [h, h']; rfl, .ok rfl⟩
  | @kept m m' h h' same =>
    obtain rfl : m = n := (lawful m h).2 same.1
    obtain rfl : m' = n' := (lawful' m' h').2 same.2
    exact answered_twins here matched state h h' (same.1.trans same.2.symm)
      (ht m m' alike (lawful m h).1 (lawful' m' h').1)
  | @replaced m m' h h' likeAnswer new =>
    exact answered_twins here matched state h h' (new.1.trans new.2.symm)
      (ht m m' likeAnswer (lawful m h).1 (lawful' m' h').1)
  | @crashed message h h' =>
    replace h : (t n p.state.1).answer = .error message := h
    replace h' : (t n' q.state.1).answer = .error message := h'
    rw [visitWith_crashed (p := p) h, visitWith_crashed (p := q) h']
    exact ⟨here.heed state fun s => by rw [h, h']; rfl, .error _⟩

end Visit

/-- Slots with the same images are visited to such slots, and they are kept in both runs or in neither. Whether they are
can be told from the counters, and these agree. -/
private theorem slots_twins {budget : Nat}
    (visits : ∀ n n' : SharedNode, n.Alike n' → n.Avoids region → n'.Avoids region' →
      Twins region region' (visit t.recorded limit budget n) (visit t.recorded limit budget n') (Option.map Node.shape)
        (Option.map Node.shape))
    (k : Kind) {fs fs' : Fields SharedNode SharedRow k.slots}
    (h : fs.map Node.shape Row.image = fs'.map Node.shape Row.image) (ha : fs.Avoids region)
    (ha' : fs'.Avoids region') :
    Parallel (Abreast region region') (Matched region region') (visitFields (visit t.recorded limit budget) k fs)
      (visitFields (visit t.recorded limit budget) k fs') (fun gs gs' =>
        gs.map Node.shape Row.image = gs'.map Node.shape Row.image ∧ (gs = fs ∨ fs.same gs = false) ∧
          (gs' = fs' ∨ fs'.same gs' = false) ∧ fs.same gs = fs'.same gs') := by
  refine (visitFields_twins (fun _ => visit_shares budget) visits k h ha ha').imp ?_
  intro p p' gs gs' q q' here run run' there matched images
  have shares := visitFields_shares (visit_moves budget) (visit_shares budget) k fs ha p gs q here.left run matched.left
  have shares' := visitFields_shares (visit_moves budget) (visit_shares budget) k fs' ha' p' gs' q' here.right run'
    matched.right
  have before : p.stats.changes = p'.stats.changes := congrArg Stats.changes here.stats
  have behind : q.stats.changes = q'.stats.changes := congrArg Stats.changes there.stats
  rcases shares with ⟨rfl, calm⟩ | ⟨new, stirred⟩ <;> rcases shares' with ⟨rfl, calm'⟩ | ⟨new', stirred'⟩
  · exact ⟨images, .inl rfl, .inl rfl, gs.same_self.trans gs'.same_self.symm⟩
  · have := calm.changes
    have := stirred'.changes
    omega
  · have := stirred.changes
    have := calm'.changes
    omega
  · exact ⟨images, .inr new, .inr new', new.trans new'.symm⟩

private theorem rebuild_twins {n n' : SharedNode} {fields : Fields SharedNode SharedRow n.kind.slots}
    {fields' : Fields SharedNode SharedRow n'.kind.slots} (hn : n.handle.region ≠ region)
    (hn' : n'.handle.region ≠ region') (either : fields = n.fields ∨ n.fields.same fields = false)
    (either' : fields' = n'.fields ∨ n'.fields.same fields' = false)
    (same : n.fields.same fields = n'.fields.same fields')
    (shapes : Node.mk () n.span n.flags n.kind n.payload (fields.map Node.shape Row.image) =
      .mk () n'.span n'.flags n'.kind n'.payload (fields'.map Node.shape Row.image)) :
    Twins region region' (rebuild n fields : Run (Logged σ) SharedNode) (rebuild n' fields') Node.shape Node.shape := by
  refine ⟨backward_left_of_state (rebuild_state n fields), backward_right_of_state (rebuild_state n' fields'),
    fun p q here _ => ?_⟩
  obtain ⟨m, nodes, run, shape⟩ := rebuild_image either (here.left ▸ hn)
  obtain ⟨m', nodes', run', shape'⟩ := rebuild_image either' (here.right ▸ hn')
  rw [run, run']
  refine ⟨⟨here.left, here.right, here.state, ?_⟩, .ok (shape.trans (shapes.trans shape'.symm))⟩
  simp only [after, here.stats, same]

private theorem descend_twins (budget : Nat) (n n' : SharedNode) (alike : n.Alike n') (ha : n.Avoids region)
    (ha' : n'.Avoids region') :
    Twins region region' (descend t.recorded limit budget n) (descend t.recorded limit budget n') Node.shape
      Node.shape := by
  induction budget generalizing n n' with
  | zero =>
    obtain ⟨g, g', span, flags, k, payload, fs, gs, rfl, rfl, -⟩ := alike.parts
    exact .throw _
  | succ budget ih =>
    refine ⟨(descend_moves _ n).backward_left, (descend_moves _ n').backward_right, fun p q here matched => ?_⟩
    obtain ⟨g, g', span, flags, k, payload, fs, gs, rfl, rfl, shapes⟩ := alike.parts
    have deepened : Abreast region region' (p.deepen (limit - budget)) (q.deepen (limit - budget)) :=
      ⟨here.left, here.right, here.state,
        congrArg (fun s => { s with deepest := max s.deepest (limit - budget) }) here.stats⟩
    cases hk : k.isTerminal with
    | true =>
      rw [descend_terminal t.recorded limit budget p (n := .mk g span flags k payload fs) hk,
        descend_terminal t.recorded limit budget q (n := .mk g' span flags k payload gs) hk]
      exact ⟨deepened, .ok alike⟩
    | false =>
      rw [descend_inner t.recorded limit budget p (n := .mk g span flags k payload fs) hk,
        descend_inner t.recorded limit budget q (n := .mk g' span flags k payload gs) hk] at matched ⊢
      obtain ⟨hg, avoid⟩ := Node.avoids_iff.mp ha
      obtain ⟨hg', avoid'⟩ := Node.avoids_iff.mp ha'
      have slots := slots_twins (fun m m' alike _ _ => visitWith_twins (descend_moves budget) ih alike) k shapes
        avoid avoid'
      have twins := slots.bind (S := fun m m' => m.shape = m'.shape)
        (fun fields => backward_left_of_state (rebuild_state (.mk g span flags k payload fs) fields))
        (fun fields => backward_right_of_state (rebuild_state (.mk g' span flags k payload gs) fields))
        fun fields fields' ⟨images, either, either', same⟩ => rebuild_twins hg hg' either either' same
          (congrArg (Node.mk () span flags k payload) images)
      exact twins.run _ _ deepened matched

end Descend

/-! ### Operations on alike operands -/

/-- The same operation on another operand. -/
def Op.on : (op : Op) → op.Result → Op
  | .descend _, m => .descend m
  | .visit _, m => .visit m
  | .visitRow _, q => .visitRow q

/-- Two operations of one sort on alike operands. -/
inductive Op.Alike : Op → Op → Prop
  | descend {m n : SharedNode} (h : m.Alike n) : Op.Alike (.descend m) (.descend n)
  | visit {m n : Option SharedNode} (h : m.map Node.shape = n.map Node.shape) : Op.Alike (.visit m) (.visit n)
  | visitRow {q r : SharedRow} (h : q.Alike r) : Op.Alike (.visitRow q) (.visitRow r)

/-- Two operations come to results that are alike. -/
def Op.LikeResults (op op' : Op) (a : op.Result) (a' : op'.Result) : Prop := (op.on a).Alike (op'.on a')

private theorem Op.run_twins {t : Transform σ} {limit region region' : Nat} (budget : Nat) {op op' : Op}
    (h : op.Alike op') (ha : op.Avoids region) (ha' : op'.Avoids region') :
    Parallel (Abreast region region') (Matched region region') (op.run t.recorded limit budget)
      (op'.run t.recorded limit budget) (op.LikeResults op') := by
  have visits {n n' : SharedNode} (alike : n.Alike n') :
      Twins region region' (Pass.visit t.recorded limit budget n) (Pass.visit t.recorded limit budget n')
        (Option.map Node.shape) (Option.map Node.shape) :=
    visitWith_twins (descend_moves budget) (descend_twins budget) alike
  cases h with
  | descend alike => exact (descend_twins budget _ _ alike ha ha').mono fun _ _ shapes => .descend shapes
  | @visit n n' shapes =>
    cases n with
    | none =>
      cases n' with
      | none => exact .pure (.visit rfl)
      | some n' => cases shapes
    | some n =>
      cases n' with
      | none => cases shapes
      | some n' => exact (visits (Option.some.inj shapes)).mono fun _ _ images => .visit images
  | visitRow alike =>
    refine (visitRowWith_twins (fun _ => visit_shares budget) (fun _ _ alike _ _ => visits alike)
      (Row.alike_iff.mp alike) ha ha').mono ?_
    exact fun _ _ images => .visitRow (Row.alike_iff.mpr images)

private theorem Runner.conclude_runner_eq (r : Runner) {x : EStateM.Result Halt (Progress (Logged σ)) α}
    {y : EStateM.Result Halt (Progress (Logged σ)) β} {R : α → β → Prop} (ends : Ends R (outcome x) (outcome y))
    (stats : (after x).stats = (after y).stats) : (r.conclude x).runner = (r.conclude y).runner := by
  rcases x with ⟨a, p⟩ | ⟨e, p⟩ <;> rcases y with ⟨b, q⟩ | ⟨e', q⟩ <;> cases ends
  · exact congrArg (fun s => { r with totals := r.totals.merge s }) stats
  · cases e with
    | failed e => exact congrArg (fun s => { r with totals := r.totals.merge s }) stats
    | crashed message => rfl

/-- How handles are shared cannot be observed. On alike operands in the same state, two runs whose calls treat alike
nodes alike fail with the same error or come to results that are alike. They leave the caller in the same state, and
they count the same. -/
theorem Runner.perform_alike (r : Runner) (t : Transform σ) {op op' : Op} (alike : op.Alike op') (s : σ)
    {region region' : Nat} (orderly : r.Orderly region t op s) (orderly' : r.Orderly region' t op' s)
    (respects : ∀ c ∈ (r.perform region t.recorded op (s, [])).state.2,
      ∀ d ∈ (r.perform region' t.recorded op' (s, [])).state.2, c.Matches d) :
    let report := r.perform region t op s
    let report' := r.perform region' t op' s
    Ends (op.LikeResults op') report.outcome report'.outcome ∧ report.state = report'.state ∧
      report.stats = report'.stats ∧ report.runner = report'.runner := by
  have twins : Parallel (Abreast region region') (Matched region region')
      (op.run t.recorded r.options.limit r.options.limit) (op'.run t.recorded r.options.limit r.options.limit)
      (op.LikeResults op') := Op.run_twins _ alike orderly.avoids orderly'.avoids
  rw [Runner.perform_eq, Runner.perform_eq, Runner.conclude_state, Runner.conclude_state] at respects
  obtain ⟨abreast, ends⟩ := twins.run (.start region op.entry (s, [])) (.start region' op'.entry (s, []))
    ⟨rfl, rfl, rfl, rfl⟩ ⟨orderly.lawful_after, orderly'.lawful_after, respects⟩
  -- the same holds of the runs without a record
  intro report report'
  have recorded : report = (r.perform region t.recorded op (s, [])).bare := (Runner.perform_recorded ..).symm
  have recorded' : report' = (r.perform region' t.recorded op' (s, [])).bare := (Runner.perform_recorded ..).symm
  rw [recorded, recorded', Runner.perform_eq, Runner.perform_eq]
  simp only [Report.bare, Runner.conclude_outcome, Runner.conclude_state, Runner.conclude_stats]
  exact ⟨ends, abreast.state, abreast.stats, r.conclude_runner_eq ends abreast.stats⟩

/-! ### A leaf that occurs twice -/

/-- Another leaf in the place of a leaf. -/
def renewed (n : SharedNode) : SharedNode :=
  .mk ⟨n.handle.region + 2, n.handle.serial⟩ n.span n.flags .superKeyword .nil .nil

/-- Exchanges all leaves of one kind. -/
def renewing (n : SharedNode) : Option SharedNode := if n.kind = .thisKeyword then some (renewed n) else some n

private theorem renewed_not_same (n : SharedNode) : (renewed n).same n = false := by
  refine beq_false_of_ne fun h => ?_
  have := congrArg Handle.region h
  exact absurd this (Nat.ne_of_gt (Nat.lt_add_of_pos_right (by decide)))

private theorem renewing_respectful : (Transform.ofFunction renewing : Transform Unit).Respectful := by
  intro m n s s' alike before
  refine ⟨?_, before⟩
  obtain ⟨kind, likeRenewed⟩ : m.kind = n.kind ∧ (renewed m).Alike (renewed n) := by
    obtain ⟨g, g', span, flags, k, payload, fs, gs, rfl, rfl, -⟩ := Node.Alike.parts alike
    exact ⟨rfl, rfl⟩
  have answer : ∀ k s, ((Transform.ofFunction renewing : Transform Unit).call k s).answer = .ok (renewing k) :=
    fun _ _ => rfl
  by_cases leaf : m.kind = .thisKeyword
  · refine .replaced (m := renewed m) (n := renewed n) ?_ ?_ likeRenewed ⟨renewed_not_same m, renewed_not_same n⟩
    · rw [answer, renewing, if_pos leaf]
    · rw [answer, renewing, if_pos (kind ▸ leaf)]
  · refine .kept (m := m) (n := n) ?_ ?_ ⟨m.same_self, n.same_self⟩
    · rw [answer, renewing, if_neg leaf]
    · rw [answer, renewing, if_neg (kind ▸ leaf)]

/-- Of two rows with two leaves each, one has its leaf twice. In both passes the two leaves are exchanged and the row
is made again. -/
theorem Runner.perform_alike_sheaf :
    let m := Sample.sheaf [⟨0, 0⟩, ⟨0, 0⟩] ⟨0, 1⟩
    let n := Sample.sheaf [⟨0, 0⟩, ⟨0, 2⟩] ⟨0, 1⟩
    let report := Sample.runner.descend? 1 (.ofFunction renewing) m ()
    let report' := Sample.runner.descend? 1 (.ofFunction renewing) n ()
    m.Alike n ∧ report.outcome.map Node.shape = report'.outcome.map Node.shape ∧
      report.outcome.isOk = true ∧ report.stats = report'.stats ∧ report.stats.replaced = 2 := by
  intro m n report report'
  let call (h : Handle) := (Transform.ofFunction renewing).call (Sample.leaf h) ()
  have lawful : ∀ h ∈ [(⟨0, 0⟩ : Handle), ⟨0, 2⟩], (call h).Lawful 1 := by
    intro h mem
    refine .replaced (m := renewed (Sample.leaf h)) rfl ?_ (renewed_not_same _)
    revert h
    decide
  have orderly : Sample.runner.Orderly 1 (.ofFunction renewing) (.descend m) () := by
    refine ⟨show m.Avoids 1 by decide, fun c hc => ?_⟩
    replace hc : c ∈ [call ⟨0, 0⟩, call ⟨0, 0⟩] := hc
    simp only [List.mem_cons, List.not_mem_nil, or_false] at hc
    rcases hc with rfl | rfl <;> exact lawful _ (by decide)
  have orderly' : Sample.runner.Orderly 1 (.ofFunction renewing) (.descend n) () := by
    refine ⟨show n.Avoids 1 by decide, fun c hc => ?_⟩
    replace hc : c ∈ [call ⟨0, 2⟩, call ⟨0, 0⟩] := hc
    simp only [List.mem_cons, List.not_mem_nil, or_false] at hc
    rcases hc with rfl | rfl <;> exact lawful _ (by decide)
  obtain ⟨ends, -, stats, -⟩ := Runner.perform_alike Sample.runner (.ofFunction renewing)
    (.descend (m := m) (n := n) rfl) () orderly orderly' renewing_respectful.matches
  refine ⟨rfl, ?_, rfl, stats, rfl⟩
  cases ends with
  | ok h =>
    cases h with
    | descend h => exact congrArg Except.ok h

end Pass

end SharedTree
