import SharedTree.Proofs.Refinement
import Mathlib.Data.List.Basic

/-!
# Building trees

A tree that is built from a shape has that shape, and its handles are those that the building has drawn: none occurs
twice, and none was drawn before.

* Nodes and rows are counted apart, so that their handles are listed apart as well: `Node.nodeHandles` and
  `Node.rowHandles`.
* `Drawn` is the property of the handles that are drawn between two states of a count. It passes from the parts of a
  tree to the whole (`Drawn.append`), in whatever order the parts are listed (`Drawn.perm`).
-/

namespace SharedTree

variable {α β η : Type}

/-! ### The handles of a tree -/

/-- The handles of all nodes of a tree. -/
def Node.nodeHandles : Node η → List η := fold fun h _ _ _ _ fields => h :: fields.nodes.flatten

/-- The handles of all rows of a tree. -/
def Node.rowHandles : Node η → List η :=
  fold fun _ _ _ _ _ fields => fields.rows.map Row.handle ++ fields.nodes.flatten

/-- A handle that is no longer to be drawn for a row: it is of another region or was drawn before. -/
def Supply.UsesRow (s : Supply) (h : Handle) : Prop := h.region = s.region → h.serial < s.rows

theorem Node.nodeHandles_eq (n : Node η) :
    n.nodeHandles = n.handle :: n.fields.nodes.flatMap Node.nodeHandles := by
  cases n with
  | mk h span flags k payload fs =>
    rw [nodeHandles, fold_mk, Fields.nodes_map, List.flatMap_def]
    rfl

theorem Node.rowHandles_eq (n : Node η) :
    n.rowHandles = n.fields.rows.map Row.handle ++ n.fields.nodes.flatMap Node.rowHandles := by
  cases n with
  | mk h span flags k payload fs =>
    rw [rowHandles, fold_mk, Fields.nodes_map, Fields.rows_handles_map, List.flatMap_def]
    rfl

/-! ### Handles that were drawn -/

/-- Handles of a region that are drawn, one by one, between two states of a count. -/
structure Drawn (region lo hi : Nat) (hs : List Handle) : Prop where
  le : lo ≤ hi
  nodup : hs.Nodup
  mem : ∀ h ∈ hs, h.region = region ∧ lo ≤ h.serial ∧ h.serial < hi

namespace Drawn

variable {region lo mid hi : Nat} {hs gs : List Handle}

theorem nil (region lo : Nat) : Drawn region lo lo [] := ⟨Nat.le_refl _, List.nodup_nil, nofun⟩

theorem single (region lo : Nat) : Drawn region lo (lo + 1) [⟨region, lo⟩] := by
  refine ⟨Nat.le_succ _, List.pairwise_singleton .., fun h hh => ?_⟩
  obtain rfl := List.mem_singleton.mp hh
  exact ⟨rfl, Nat.le_refl _, Nat.lt_succ_self _⟩

theorem append (hh : Drawn region lo mid hs) (hg : Drawn region mid hi gs) : Drawn region lo hi (hs ++ gs) := by
  refine ⟨Nat.le_trans hh.le hg.le, ?_, fun h mem => ?_⟩
  · refine List.nodup_append.mpr ⟨hh.nodup, hg.nodup, fun h h₁ g h₂ same => ?_⟩
    have := (hh.mem h h₁).2.2
    have := (hg.mem g h₂).2.1
    subst same
    omega
  · have := hh.le
    have := hg.le
    rcases List.mem_append.mp mem with mem | mem
    · obtain ⟨same, lower, upper⟩ := hh.mem h mem
      exact ⟨same, lower, by omega⟩
    · obtain ⟨same, lower, upper⟩ := hg.mem h mem
      exact ⟨same, by omega, upper⟩

theorem perm (h : Drawn region lo hi hs) (hp : hs.Perm gs) : Drawn region lo hi gs :=
  ⟨h.le, hp.nodup_iff.mp h.nodup, fun g hg => h.mem g (hp.mem_iff.mpr hg)⟩

end Drawn

/-- Between two states of a supply the given handles are drawn for nodes and for rows. -/
structure Supply.Yields (s t : Supply) (nodes rows : List Handle) : Prop where
  region : t.region = s.region
  nodes : Drawn s.region s.nodes t.nodes nodes
  rows : Drawn s.region s.rows t.rows rows

namespace Supply.Yields

variable {s t u : Supply} {nodes rows nodes' rows' : List Handle}

theorem nil (s : Supply) : s.Yields s [] [] := ⟨rfl, .nil _ _, .nil _ _⟩

theorem append (h : s.Yields t nodes rows) (h' : t.Yields u nodes' rows') :
    s.Yields u (nodes ++ nodes') (rows ++ rows') :=
  ⟨h'.region.trans h.region, h.nodes.append (h.region ▸ h'.nodes), h.rows.append (h.region ▸ h'.rows)⟩

theorem perm (h : s.Yields t nodes rows) (hn : nodes.Perm nodes') (hr : rows.Perm rows') :
    s.Yields t nodes' rows' := ⟨h.region, h.nodes.perm hn, h.rows.perm hr⟩

end Supply.Yields

/-! ### Building -/

theorem build_bind {x : Build α} {f : α → Build β} {s t : Supply} {a : α} (h : x s = (a, t)) :
    (x >>= f) s = f a t := by
  show StateT.bind x f s = _
  unfold StateT.bind
  rw [h]
  rfl

/-- What is built from a shape has that shape, and it has the handles that were drawn for it. -/
def Shape.Grows (n : Shape) : Prop :=
  ∀ s, ∃ m t, n.build s = (m, t) ∧ m.shape = n ∧ s.Yields t m.nodeHandles m.rowHandles

private theorem items_grow {ns : List Shape} (h : ∀ n ∈ ns, n.Grows) (s : Supply) :
    ∃ ms t, (ns.map Shape.build).mapM id s = (ms, t) ∧ ms.map Node.shape = ns ∧
      s.Yields t (ms.flatMap Node.nodeHandles) (ms.flatMap Node.rowHandles) := by
  induction ns generalizing s with
  | nil => exact ⟨[], s, rfl, rfl, .nil s⟩
  | cons n ns ih =>
    obtain ⟨m, t, built, shape, yields⟩ := h n (by simp) s
    obtain ⟨ms, u, builds, shapes, yields'⟩ := ih (fun k hk => h k (by simp [hk])) t
    refine ⟨m :: ms, u, ?_, by rw [List.map_cons, shape, shapes], ?_⟩
    · rw [List.map_cons, List.mapM_cons]
      exact (build_bind built).trans (build_bind builds)
    · exact yields.append yields'

private theorem row_grows {r : Row Unit Shape} (h : ∀ n ∈ r.items, n.Grows) (s : Supply) :
    ∃ q t, (r.map Shape.build).build s = (q, t) ∧ q.image = r ∧
      s.Yields t (q.items.flatMap Node.nodeHandles) (q.handle :: q.items.flatMap Node.rowHandles) := by
  obtain ⟨ms, t, builds, shapes, yields⟩ := items_grow h s
  refine ⟨⟨⟨t.region, t.rows⟩, r.span, ms⟩, { t with rows := t.rows + 1 }, build_bind builds, ?_, ?_⟩
  · obtain ⟨_, span, items⟩ := r
    show Row.mk () span (ms.map Node.shape) = _
    rw [shapes]
  · have row : t.Yields { t with rows := t.rows + 1 } [] [⟨t.region, t.rows⟩] := ⟨rfl, .nil _ _, .single _ _⟩
    refine (yields.append row).perm ?_ ?_
    · rw [List.append_nil]
    · exact List.perm_append_singleton _ _

private theorem child_grows {a : Arity} {c : Child Shape (Row Unit Shape) a} (h : ∀ n ∈ c.nodes, n.Grows)
    (s : Supply) : ∃ d t, (c.map Shape.build (Row.map Shape.build)).mapM id Row.build s = (d, t) ∧
      d.map Node.shape Row.image = c ∧
      s.Yields t (d.nodes.flatMap Node.nodeHandles) (d.rows.map Row.handle ++ d.nodes.flatMap Node.rowHandles) := by
  cases c with
  | one n =>
    obtain ⟨m, t, built, shape, yields⟩ := h n (by simp [Child.nodes]) s
    refine ⟨.one m, t, build_bind built, congrArg Child.one shape, ?_⟩
    simpa [Child.nodes, Child.rows] using yields
  | opt n =>
    cases n with
    | none => exact ⟨.opt none, s, rfl, rfl, .nil s⟩
    | some n =>
      obtain ⟨m, t, built, shape, yields⟩ := h n (by simp [Child.nodes]) s
      refine ⟨.opt (some m), t, build_bind built, congrArg (fun m => Child.opt (some m)) shape, ?_⟩
      simpa [Child.nodes, Child.rows] using yields
  | row r =>
    obtain ⟨q, t, built, image, yields⟩ := row_grows h s
    exact ⟨.row q, t, build_bind built, congrArg Child.row image, yields⟩
  | optRow r =>
    cases r with
    | none => exact ⟨.optRow none, s, rfl, rfl, .nil s⟩
    | some r =>
      obtain ⟨q, t, built, image, yields⟩ := row_grows h s
      exact ⟨.optRow (some q), t, build_bind built, congrArg (fun q => Child.optRow (some q)) image, yields⟩

private theorem fields_grow {ss : List Slot} {fs : Fields Shape (Row Unit Shape) ss} (h : ∀ n ∈ fs.nodes, n.Grows)
    (s : Supply) : ∃ gs t, (fs.map Shape.build (Row.map Shape.build)).mapM id Row.build s = (gs, t) ∧
      gs.map Node.shape Row.image = fs ∧
      s.Yields t (gs.nodes.flatMap Node.nodeHandles) (gs.rows.map Row.handle ++ gs.nodes.flatMap Node.rowHandles) := by
  induction fs generalizing s with
  | nil => exact ⟨.nil, s, rfl, rfl, .nil s⟩
  | cons c rest ih =>
    obtain ⟨d, t, built, child, yields⟩ := child_grows (fun n hn => h n (List.mem_append_left _ hn)) s
    obtain ⟨gs, u, builds, fields, yields'⟩ := ih (fun n hn => h n (List.mem_append_right _ hn)) t
    refine ⟨.cons d gs, u, (build_bind built).trans (build_bind builds), ?_, (yields.append yields').perm ?_ ?_⟩
    · rw [Fields.map, child, fields]
    · rw [Fields.nodes, List.flatMap_append]
    · -- drawn child after child, but listed with the rows of all children first
      rw [Fields.nodes, Fields.rows, List.flatMap_append, List.map_append, List.append_assoc, List.append_assoc]
      refine List.Perm.append_left _ ?_
      rw [← List.append_assoc, ← List.append_assoc]
      exact List.perm_append_comm.append_right _

/-- A tree that is built from a shape has that shape and the handles that are drawn for it. -/
theorem Shape.build_grows (n : Shape) : n.Grows := by
  induction n using Node.induct with
  | step n ih =>
    cases n with
    | mk _ span flags k payload fs =>
      intro s
      obtain ⟨gs, t, built, shapes, yields⟩ := fields_grow ih s
      refine ⟨.mk ⟨t.region, t.nodes⟩ span flags k payload gs, { t with nodes := t.nodes + 1 }, ?_, ?_, ?_⟩
      · rw [build, Node.fold_mk]
        exact build_bind built
      · rw [Node.shape_eq]
        exact congrArg (Node.mk () span flags k payload) shapes
      · have node : t.Yields { t with nodes := t.nodes + 1 } [⟨t.region, t.nodes⟩] [] := ⟨rfl, .single _ _, .nil _ _⟩
        rw [Node.nodeHandles_eq, Node.rowHandles_eq]
        refine (yields.append node).perm (List.perm_append_singleton _ _) ?_
        rw [List.append_nil]
        exact List.Perm.refl _

end SharedTree
