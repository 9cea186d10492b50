import SharedTree.Proofs.Building
import SharedTree.Proofs.Nesting
import SharedTree.Proofs.Decoding
import SharedTree.Proofs.Update

/-!
# Writing nodes and reading them back

The text of a node is read back as a tree that is like the node, as long as its brackets are nested no more than 127
deep; the text of any other node is refused. Handles are not written. A tree that is read has handles of its own.

* `Node.toJson_shape`: what is written of a node does not depend on handles.
* `Shape.ofText_toText`: the text of a node is read as its shape, or it is nested too deep.
* `Node.readFrom_toText` puts this together with what is known about building a tree from a shape.
-/

namespace SharedTree

open Json

variable {η : Type}

/-! ### Texts without handles -/

section Encode

private theorem Child.toJson_image {a : Arity} (c : Child SharedNode SharedRow a)
    (h : ∀ n ∈ c.nodes, n.shape.toJson = n.toJson) :
    ((c.map Node.shape Row.image).map Node.toJson (Row.map Node.toJson)).toJson =
      (c.map Node.toJson (Row.map Node.toJson)).toJson := by
  have row : ∀ r : SharedRow, (∀ n ∈ r.items, n.shape.toJson = n.toJson) →
      (r.image.map Node.toJson).toJson = (r.map Node.toJson).toJson := by
    intro r hr
    have items : (r.items.map Node.shape).map Node.toJson = r.items.map Node.toJson := by
      rw [List.map_map]
      exact List.map_congr_left hr
    show Json.record [("loc", r.span.toJson), ("nodes", .list ((r.items.map Node.shape).map Node.toJson))] = _
    rw [items]
    rfl
  cases c with
  | one n => exact h n (by simp [Child.nodes])
  | opt n =>
    cases n with
    | none => rfl
    | some n => exact h n (by simp [Child.nodes])
  | row r => exact row r h
  | optRow r =>
    cases r with
    | none => rfl
    | some r => exact row r h

private theorem Fields.members_image {ss : List Slot} (fs : Fields SharedNode SharedRow ss)
    (h : ∀ n ∈ fs.nodes, n.shape.toJson = n.toJson) :
    ((fs.map Node.shape Row.image).map Node.toJson (Row.map Node.toJson)).members =
      (fs.map Node.toJson (Row.map Node.toJson)).members := by
  induction fs with
  | nil => rfl
  | cons c rest ih =>
    have child := c.toJson_image fun n hn => h n (List.mem_append_left _ hn)
    have rest := ih fun n hn => h n (List.mem_append_right _ hn)
    simp only [Fields.map, Fields.members, child, rest]

/-- What is written of a node does not depend on handles. -/
theorem Node.toJson_shape (n : SharedNode) : n.shape.toJson = n.toJson := by
  induction n using Node.induct with
  | step n ih =>
    cases n with
    | mk h span flags k payload fs =>
      have members := fs.members_image ih
      rw [shape_eq]
      show Node.toJson (.mk () span flags k payload (fs.map Node.shape Row.image)) = _
      rw [toJson_mk, toJson_mk, Kind.dataToJson, Kind.dataToJson, members]

end Encode

theorem Node.Alike.toText {m n : SharedNode} (h : m.Alike n) : m.toText = n.toText := by
  have same : m.shape = n.shape := h
  rw [Node.toText, Node.toText, ← m.toJson_shape, ← n.toJson_shape, same]

/-! ### Reading what was written -/

theorem Node.nesting_toText (n : SharedNode) : nesting n.toText.toList = n.toJson.depth :=
  Json.nesting_toText Layout.indented_spaced n.toJson

/-- The text of a node is read as the shape of the node, unless it is nested too deep. -/
theorem Shape.ofText_toText (n : SharedNode) :
    Shape.ofText n.toText = within (nesting n.toText.toList) nestingLimit n.shape := by
  rw [Shape.ofText, n.nesting_toText, Node.toText, Document.ofChars_toText Layout.indented_spaced, ← n.toJson_shape,
    Document.read, n.shape.read_toJson]
  exact bind_pure _

/-- Reads a node with handles from a supply. -/
def Node.readFrom (s : Supply) (text : String) : Reading (SharedNode × Supply) :=
  (Shape.ofText text).map fun shape => shape.build s

/-- A node is read back from its text if the brackets in the text are nested at most 127 deep. -/
theorem Node.readFrom_toText (n : SharedNode) (s : Supply) (nodes : ∀ h ∈ n.nodeHandles, s.UsesNode h)
    (rows : ∀ h ∈ n.rowHandles, s.UsesRow h) :
    (nesting n.toText.toList ≤ 127 → ∃ m t, readFrom s n.toText = .ok (m, t) ∧ m.Alike n ∧
      m.nodeHandles.Nodup ∧ m.rowHandles.Nodup ∧
      (∀ h ∈ m.nodeHandles, h ∉ n.nodeHandles) ∧ (∀ h ∈ m.rowHandles, h ∉ n.rowHandles) ∧
      m.toText = n.toText) ∧
    (128 ≤ nesting n.toText.toList → readFrom s n.toText = .error .malformed) := by
  constructor
  · intro shallow
    obtain ⟨m, t, built, shape, yields⟩ := n.shape.build_grows s
    have read : readFrom s n.toText = .ok (m, t) := by
      rw [readFrom, Shape.ofText_toText, within_map, built]
      exact if_pos shallow
    refine ⟨m, t, read, shape, yields.nodes.nodup, yields.rows.nodup, ?_, ?_, Node.Alike.toText shape⟩
    · intro h hm hn
      obtain ⟨region, serial, -⟩ := yields.nodes.mem h hm
      exact Nat.not_lt.mpr serial (nodes h hn region)
    · intro h hm hn
      obtain ⟨region, serial, -⟩ := yields.rows.mem h hm
      exact Nat.not_lt.mpr serial (rows h hn region)
  · intro deep
    rw [readFrom, Shape.ofText_toText, within_map]
    exact if_neg (Nat.not_le.mpr deep)

/-- A node in which a leaf occurs twice is read back as a node with two leaves. -/
theorem Node.readFrom_toText_sheaf :
    let n := Sample.sheaf [⟨0, 0⟩, ⟨0, 0⟩] ⟨0, 1⟩
    nesting n.toText.toList = 7 ∧ ∃ m t, readFrom ⟨0, 2, 1⟩ n.toText = .ok (m, t) ∧ m.Alike n ∧
      m.nodeHandles.Nodup ∧ m.toText = n.toText := by
  intro n
  have nodes : ∀ h ∈ n.nodeHandles, (⟨0, 2, 1⟩ : Supply).UsesNode h := by
    unfold Supply.UsesNode
    decide
  have rows : ∀ h ∈ n.rowHandles, (⟨0, 2, 1⟩ : Supply).UsesRow h := by
    unfold Supply.UsesRow
    decide
  have depth : nesting n.toText.toList = 7 := n.nesting_toText.trans (by decide)
  obtain ⟨m, t, read, alike, nodup, -, -, -, same⟩ := (n.readFrom_toText ⟨0, 2, 1⟩ nodes rows).1 (by omega)
  exact ⟨depth, m, t, read, alike, nodup, same⟩

end SharedTree
