import SharedTree.Node.Shape
import SharedTree.Sample

/-!
# Changing the children of a node

`Node.update` is a setter that keeps identities. What matters of the slots are the handles in them (`Fields.byHandle`),
of rows the handles of the rows and not those of their elements.

* `Fields.same_iff`: fillings of the slots are the same if they agree by handle.
* `Node.update_mk`: the node itself if the slots agree by handle, and otherwise a new node.
* `Node.update_sets_slots` collects the laws. Setting the slots to what they hold gives the node, and what was set can
  be read back. To set the same twice is to set it once, and of two settings the second one counts.
-/

namespace SharedTree

/-! ### Slots by handle -/

/-- The handles in the slots. -/
def Fields.byHandle {ss : List Slot} (fs : Fields SharedNode SharedRow ss) : Fields Handle Handle ss :=
  fs.map Node.handle Row.handle

private theorem Child.same_iff {a : Arity} (c d : Child SharedNode SharedRow a) :
    c.same d = true ↔ c.map Node.handle Row.handle = d.map Node.handle Row.handle := by
  cases c with
  | one m => cases d; simp [Child.same, Child.map, Node.same]
  | opt m =>
    cases d with
    | opt n => cases m <;> cases n <;> simp [Child.same, Child.map, sameOpt, Node.same]
  | row r => cases d; simp [Child.same, Child.map, Row.same]
  | optRow r =>
    cases d with
    | optRow q => cases r <;> cases q <;> simp [Child.same, Child.map, sameOpt, Row.same]

/-- Slots are the same exactly when they agree by handle one by one. -/
theorem Fields.same_iff {ss : List Slot} (fs gs : Fields SharedNode SharedRow ss) :
    fs.same gs = true ↔ fs.byHandle = gs.byHandle := by
  unfold Fields.byHandle
  induction fs with
  | nil => cases gs; simp [Fields.same]
  | cons c cs ih =>
    cases gs with
    | cons d ds => simp only [Fields.same, Fields.map, Bool.and_eq_true, Child.same_iff, ih, Fields.cons.injEq]

/-! ### What handles stand for -/

/-- One node and one row for each handle. -/
structure Store where
  node : Handle → SharedNode
  row : Handle → SharedRow

/-- Everything in the slots is what the store has under its handle. -/
def Fields.StoredIn (store : Store) {ss : List Slot} (fs : Fields SharedNode SharedRow ss) : Prop :=
  fs.byHandle.map store.node store.row = fs

private theorem Fields.StoredIn.eq_of_byHandle {store : Store} {ss : List Slot} {fs gs : Fields SharedNode SharedRow ss}
    (hf : fs.StoredIn store) (hg : gs.StoredIn store) (h : fs.byHandle = gs.byHandle) : fs = gs := by
  unfold Fields.StoredIn at hf hg
  rw [← hf, h, hg]

/-! ### Handles in use -/

/-- A handle that is no longer to be drawn for a node: it is of another region or was drawn before. -/
def Supply.UsesNode (s : Supply) (h : Handle) : Prop := h.region = s.region → h.serial < s.nodes

/-! ### The laws -/

namespace Node

/-- The outcome of an update with handles from a supply. -/
def updateFrom (s : Supply) (k : Kind) (n : SharedNode) (xs : Fields SharedNode SharedRow k.slots) :
    Except KindMismatch (SharedNode × Supply) :=
  (update k n xs).map fun build => build s

section Laws

variable (s : Supply) {h : Handle} {span : Span} {flags : Flags} {k : Kind} {payload : Payload k.attributes}
  {fs xs ys : Fields SharedNode SharedRow k.slots}

private theorem updateFrom_of_kind_ne {n : SharedNode} (hk : n.kind ≠ k) :
    n.updateFrom s k xs = .error ⟨k, n.kind⟩ := by
  simp only [updateFrom, update, hk, dite_false]
  rfl

private theorem updateFrom_mk :
    updateFrom s k (.mk h span flags k payload fs) xs =
      .ok ((Node.mk h span flags k payload fs).withFields xs s) := by
  have hk : (Node.mk h span flags k payload fs).kind = k := rfl
  simp only [updateFrom, update, hk, dite_true]
  rfl

private theorem updateFrom_of_agree (hx : fs.byHandle = xs.byHandle) :
    updateFrom s k (.mk h span flags k payload fs) xs = .ok (.mk h span flags k payload fs, s) := by
  have same : (Node.mk h span flags k payload fs).withFields xs = pure (.mk h span flags k payload fs) :=
    if_pos ((Fields.same_iff fs xs).mpr hx)
  rw [updateFrom_mk, same]
  rfl

private theorem updateFrom_of_differ (hx : fs.byHandle ≠ xs.byHandle) :
    updateFrom s k (.mk h span flags k payload fs) xs =
      .ok (.mk ⟨s.region, s.nodes⟩ span flags k payload xs, { s with nodes := s.nodes + 1 }) := by
  have made : (Node.mk h span flags k payload fs).withFields xs = Node.create k payload xs span flags :=
    if_neg fun same => hx ((Fields.same_iff fs xs).mp same)
  rw [updateFrom_mk, made]
  rfl

/-- Of two settings the second one counts. -/
private theorem alike_of_updates (store : Store) (s' : Supply) {h' : Handle} (hf : fs.StoredIn store)
    (hx : xs.StoredIn store) (hy : ys.StoredIn store) : ∃ m m' t t',
      updateFrom s k (.mk h span flags k payload xs) ys = .ok (m, t) ∧
      updateFrom s' k (.mk h' span flags k payload fs) ys = .ok (m', t') ∧ m.Alike m' := by
  -- whichever of the two nodes is kept, its slots hold what was given
  have holds : ∀ (s : Supply) (h : Handle) (zs : Fields SharedNode SharedRow k.slots), zs.StoredIn store →
      ∃ g t, updateFrom s k (.mk h span flags k payload zs) ys = .ok (.mk g span flags k payload ys, t) := by
    intro s h zs hz
    by_cases agree : zs.byHandle = ys.byHandle
    · obtain rfl := hz.eq_of_byHandle hy agree
      exact ⟨h, s, updateFrom_of_agree s rfl⟩
    · exact ⟨_, _, updateFrom_of_differ s agree⟩
  obtain ⟨g, t, first⟩ := holds s h xs hx
  obtain ⟨g', t', second⟩ := holds s' h' fs hf
  refine ⟨_, _, t, t', first, second, ?_⟩
  simp only [Alike, shape, fold_mk]

end Laws

/-- `Node.update` is a setter of slots that keeps identities. A node of another kind is refused. The node itself comes
back if its slots agree with what is given by handle, and otherwise a node under a handle that was not in use, with the
same span, flags and payload, whose slots hold what was given. -/
theorem update_sets_slots (store : Store) (k : Kind) (n : SharedNode) (xs ys : Fields SharedNode SharedRow k.slots)
    (s s' s'' : Supply) :
    (n.kind ≠ k → n.updateFrom s k xs = .error ⟨k, n.kind⟩ ∧ KindMismatch.message ⟨k, n.kind⟩ =
      "update expected a " ++ k.name ++ " node but was given a " ++ n.kind.name ++ " node") ∧
    ∀ h span flags payload fs, n = .mk h span flags k payload fs → ∃ h' gs t,
      let m : SharedNode := .mk h' span flags k payload gs
      n.updateFrom s k xs = .ok (m, t) ∧ gs.byHandle = xs.byHandle ∧
      (fs.byHandle = xs.byHandle → m = n ∧ t = s) ∧
      (fs.byHandle ≠ xs.byHandle → gs = xs ∧ ¬ s.UsesNode h' ∧ t.UsesNode h' ∧
        (∀ n', s.UsesNode n'.handle → m.same n' = false) ∧ ∀ g, s.UsesNode g → t.UsesNode g) ∧
      n.updateFrom s' k fs = .ok (n, s') ∧
      m.updateFrom s' k xs = .ok (m, s') ∧
      (fs.StoredIn store → xs.StoredIn store → ys.StoredIn store → ∃ m₁ m₂ t₁ t₂,
        m.updateFrom s' k ys = .ok (m₁, t₁) ∧ n.updateFrom s'' k ys = .ok (m₂, t₂) ∧ m₁.Alike m₂) := by
  refine ⟨fun hk => ⟨updateFrom_of_kind_ne s hk, rfl⟩, ?_⟩
  rintro h span flags payload fs rfl
  by_cases agree : fs.byHandle = xs.byHandle
  · refine ⟨h, fs, s, updateFrom_of_agree s agree, agree, fun _ => ⟨rfl, rfl⟩, fun differ => absurd agree differ,
      updateFrom_of_agree s' rfl, updateFrom_of_agree s' agree, ?_⟩
    intro hf _ hy
    exact alike_of_updates s' store s'' hf hf hy
  · refine ⟨_, xs, _, updateFrom_of_differ s agree, rfl, fun same => absurd same agree, fun _ => ⟨rfl, ?_⟩,
      updateFrom_of_agree s' rfl, updateFrom_of_agree s' rfl, ?_⟩
    · have unused : ¬ s.UsesNode ⟨s.region, s.nodes⟩ := fun used => Nat.lt_irrefl _ (used rfl)
      refine ⟨unused, fun _ => Nat.lt_succ_self _, ?_, fun g used same => Nat.lt_succ_of_lt (used same)⟩
      intro n' used
      simp only [Node.same, handle, beq_eq_false_iff_ne, ne_eq]
      exact fun same => unused (same ▸ used)
    · intro hf hx hy
      exact alike_of_updates s' store s'' hf hx hy

/-- A twig whose leaf is exchanged twice is like a twig whose leaf is exchanged for the second leaf at once. -/
theorem update_sets_slots_twig :
    let filled (h : Handle) : Fields SharedNode SharedRow Kind.expressionStatement.slots :=
      .cons (.one (Sample.leaf h)) .nil
    let store : Store := ⟨Sample.leaf, fun h => ⟨h, {}, []⟩⟩
    (filled ⟨0, 0⟩).StoredIn store ∧ (filled ⟨0, 0⟩).byHandle ≠ (filled ⟨0, 2⟩).byHandle ∧
    ∃ m m₁ m₂ t₁ t₂, updateFrom ⟨0, 4, 0⟩ .expressionStatement Sample.twig (filled ⟨0, 2⟩) = .ok (m, ⟨0, 5, 0⟩) ∧
      updateFrom ⟨0, 5, 0⟩ .expressionStatement m (filled ⟨0, 3⟩) = .ok (m₁, t₁) ∧
      updateFrom ⟨0, 5, 0⟩ .expressionStatement Sample.twig (filled ⟨0, 3⟩) = .ok (m₂, t₂) ∧ m₁.Alike m₂ := by
  intro filled store
  have stored (h : Handle) : (filled h).StoredIn store := rfl
  have differ : (filled ⟨0, 0⟩).byHandle ≠ (filled ⟨0, 2⟩).byHandle := by
    intro h
    cases h
  refine ⟨stored _, differ, ?_⟩
  have laws := update_sets_slots store .expressionStatement Sample.twig (filled ⟨0, 2⟩) (filled ⟨0, 3⟩) ⟨0, 4, 0⟩
    ⟨0, 5, 0⟩ ⟨0, 5, 0⟩
  obtain ⟨h, gs, t, set, -, -, -, -, -, twice⟩ := laws.2 _ _ _ _ _ rfl
  obtain ⟨m₁, m₂, t₁, t₂, first, second, alike⟩ := twice (stored _) (stored _) (stored _)
  have supply : t = ⟨0, 5, 0⟩ := by
    have made : updateFrom ⟨0, 4, 0⟩ .expressionStatement Sample.twig (filled ⟨0, 2⟩) = .ok (_, ⟨0, 5, 0⟩) :=
      updateFrom_of_differ _ differ
    exact congrArg Prod.snd (Except.ok.inj (set.symm.trans made))
  subst supply
  exact ⟨_, m₁, m₂, t₁, t₂, set, first, second, alike⟩

end Node

/-- All but the leaves of the grammar can be updated. -/
example : (Kind.all.filter fun k => !k.slots.isEmpty).length = 74 := by decide

end SharedTree
