import SharedTree.Proofs.Likeness
import SharedTree.Proofs.RoundTrip

/-!
# Texts tell nodes apart

Two nodes have the same text if and only if they are alike, however deep they are nested. The limit of nesting is one of
readers: the scanner finds the same draft in a text whatever its depth, and a budget that is great enough for both
values takes the draft to both shapes.

* `Node.alike_iff` says slot by slot what it is for two nodes to be alike.
* `Json.draft_of_toText` gets from texts to drafts and `Shape.eq_of_draft` from drafts to shapes; together they are the
  harder half of `Node.toText_eq_iff`.
-/

namespace SharedTree

/-! ### Alike slots -/

/-- Two children of one slot are alike: absent as well, or present and alike. -/
def Child.Alike : {a : Arity} → Child SharedNode SharedRow a → Child SharedNode SharedRow a → Prop
  | _, .one m, .one n => m.Alike n
  | _, .opt m, .opt n => Option.Rel Node.Alike m n
  | _, .row r, .row q => r.Alike q
  | _, .optRow r, .optRow q => Option.Rel Row.Alike r q

def Fields.Alike : {ss : List Slot} → Fields SharedNode SharedRow ss → Fields SharedNode SharedRow ss → Prop
  | _, .nil, .nil => True
  | _, .cons c cs, .cons d ds => c.Alike d ∧ cs.Alike ds

theorem Child.alike_iff {a : Arity} {c d : Child SharedNode SharedRow a} :
    c.Alike d ↔ c.map Node.shape Row.image = d.map Node.shape Row.image := by
  cases c with
  | one m => cases d with | one n => simp [Child.Alike, Child.map, Node.Alike]
  | opt m =>
    cases d with
    | opt n => cases m <;> cases n <;> simp [Child.Alike, Child.map, Node.Alike]
  | row r => cases d with | row q => simp [Child.Alike, Child.map, Row.alike_iff]
  | optRow r =>
    cases d with
    | optRow q => cases r <;> cases q <;> simp [Child.Alike, Child.map, Row.alike_iff]

theorem Fields.alike_iff {ss : List Slot} {fs gs : Fields SharedNode SharedRow ss} :
    fs.Alike gs ↔ fs.map Node.shape Row.image = gs.map Node.shape Row.image := by
  induction fs with
  | nil => cases gs with | nil => simp [Fields.Alike]
  | cons c rest ih => cases gs with | cons d others => simp [Fields.Alike, Fields.map, Child.alike_iff, ih]

/-- Two nodes are alike if they have the same span, flags, kind and payload, and what is in their slots is alike. -/
theorem Node.alike_iff {m n : SharedNode} : m.Alike n ↔ ∃ g g' span flags k payload fs gs,
    m = .mk g span flags k payload fs ∧ n = .mk g' span flags k payload gs ∧ fs.Alike gs := by
  constructor
  · intro alike
    obtain ⟨g, g', span, flags, k, payload, fs, gs, left, right, images⟩ := alike.parts
    exact ⟨g, g', span, flags, k, payload, fs, gs, left, right, Fields.alike_iff.mpr images⟩
  · rintro ⟨g, g', span, flags, k, payload, fs, gs, rfl, rfl, alike⟩
    have images := Fields.alike_iff.mp alike
    unfold Node.Alike
    rw [Node.shape_eq, Node.shape_eq]
    exact congrArg (Node.mk () span flags k payload) images

/-! ### From texts to shapes -/

/-- Values of the same text have the same draft. -/
theorem Json.draft_of_toText {l : Layout} (hl : l.Spaced) {i j : Json} (h : i.toText l = j.toText l) :
    draft i = draft j := by
  have first := Document.ofChars_toText hl i
  rw [h, Document.ofChars_toText hl j] at first
  exact (congrArg Document.value first).symm

/-- Shapes of the same draft are the same: both are what is read with a budget that is great enough for both. -/
theorem Shape.eq_of_draft {m n : Shape} (h : Json.draft m.toJson = Json.draft n.toJson) : m = n := by
  let budget := max m.toJson.depth n.toJson.depth
  have left : Shape.read budget (Json.draft m.toJson) = .ok m :=
    (m.read_toJson budget).trans (if_pos (Nat.le_max_left _ _))
  have right : Shape.read budget (Json.draft n.toJson) = .ok n :=
    (n.read_toJson budget).trans (if_pos (Nat.le_max_right _ _))
  rw [h, right] at left
  exact (Except.ok.inj left).symm

/-- Two nodes have the same text if and only if they are alike: the same in kind, span, flags and payload, with the same
slots absent, empty or filled, the same spans of rows, and alike below. -/
theorem Node.toText_eq_iff (m n : SharedNode) :
    (m.toText = n.toText ↔ m.Alike n) ∧
    (m.Alike n ↔ ∃ g g' span flags k payload fs gs,
      m = .mk g span flags k payload fs ∧ n = .mk g' span flags k payload gs ∧ fs.Alike gs) := by
  refine ⟨⟨fun same => ?_, Node.Alike.toText⟩, Node.alike_iff⟩
  have drafts : Json.draft m.toJson = Json.draft n.toJson := Json.draft_of_toText Json.Layout.indented_spaced same
  rw [← m.toJson_shape, ← n.toJson_shape] at drafts
  exact Shape.eq_of_draft drafts

end SharedTree
