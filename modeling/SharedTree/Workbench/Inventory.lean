import Std.Data.HashMap
import SharedTree.Handle

/-!
# Inventories

An inventory numbers nodes and rows in the order in which they are first mentioned, each of them
once, whatever else is equal to it. Whoever mentions something also learns what it is made of: the
records of all that is new, in the order in which it is met level by level.
-/

namespace SharedTree.Workbench

/-- A node or a row. -/
inductive Part where
  | node (n : SharedNode)
  | row (r : SharedRow)

/-- What is in a slot, unless it is empty. -/
def childPart : {a : Arity} → Child SharedNode SharedRow a → Option Part
  | _, .one n => some (.node n)
  | _, .opt n => n.map .node
  | _, .row r => some (.row r)
  | _, .optRow r => r.map .row

/-- What is in each slot. -/
def slotParts : {ss : List Slot} → Fields SharedNode SharedRow ss → List (String × Option Part)
  | _, .nil => []
  | _, @Fields.cons _ _ s _ c rest => (s.name, childPart c) :: slotParts rest

namespace Part

/-- The nodes and rows directly below a part. -/
def below : Part → List Part
  | node n => (slotParts n.fields).filterMap (·.2)
  | row r => r.items.map .node

/-- A measure that decreases from a part to what is below it. -/
private noncomputable def weight : Part → Nat
  | node n => sizeOf n
  | row r => sizeOf r

private theorem weight_childPart {a : Arity} {c : Child SharedNode SharedRow a} {q : Part}
    (h : childPart c = some q) : q.weight < sizeOf c := by
  cases c with
  | one n => cases h; simp [weight]
  | opt n => cases n <;> cases h; simp [weight]; omega
  | row r => cases h; simp [weight]
  | optRow r => cases r <;> cases h; simp [weight]; omega

private theorem weight_slotParts {ss : List Slot} {fs : Fields SharedNode SharedRow ss} {q : Part}
    (h : q ∈ (slotParts fs).filterMap (·.2)) : q.weight < sizeOf fs := by
  induction fs with
  | nil => simp [slotParts] at h
  | cons c rest ih =>
    simp only [Fields.cons.sizeOf_spec]
    simp only [slotParts, List.mem_filterMap, List.mem_cons] at h
    obtain ⟨_, rfl | h, hq⟩ := h
    · have := weight_childPart hq
      omega
    · have := ih (List.mem_filterMap.2 ⟨_, h, hq⟩)
      omega

private theorem weight_lt_of_mem_below {p q : Part} (h : q ∈ p.below) : q.weight < p.weight := by
  cases p with
  | node n =>
    cases n with
    | mk _ _ _ _ _ fs =>
      have : q.weight < sizeOf fs := weight_slotParts h
      simp only [weight, Node.mk.sizeOf_spec] at *
      omega
  | row r =>
    cases r
    obtain ⟨n, hn, rfl⟩ := List.mem_map.1 h
    have := List.sizeOf_lt_of_mem hn
    simp only [weight, Row.mk.sizeOf_spec] at *
    omega

end Part

/-- The number of a node or of a row. -/
inductive Id where
  | node (number : Nat)
  | row (number : Nat)
deriving DecidableEq, Repr

/-- The text of a number: nodes and rows are counted apart. -/
def Id.text : Id → String
  | node number => "n" ++ toString number
  | row number => "a" ++ toString number

/-- What a node or a row is made of. -/
inductive Record where
  | node (id : Id) (n : SharedNode) (slots : List (String × Option Id))
  | row (id : Id) (r : SharedRow) (items : List Id)

/-- The numbers that were given. -/
structure Inventory where
  nodes : Std.HashMap Handle Nat := {}
  rows : Std.HashMap Handle Nat := {}

namespace Inventory

/-- The number of a part; a part that has none would get the next one. -/
def id (i : Inventory) : Part → Id
  | .node n => .node (i.nodes.getD n.handle i.nodes.size)
  | .row r => .row (i.rows.getD r.handle i.rows.size)

/-- Whether a part has a number. -/
def knows (i : Inventory) : Part → Bool
  | .node n => i.nodes.contains n.handle
  | .row r => i.rows.contains r.handle

/-- Gives the next number to a part. -/
def add (i : Inventory) : Part → Inventory
  | .node n => { i with nodes := i.nodes.insert n.handle i.nodes.size }
  | .row r => { i with rows := i.rows.insert r.handle i.rows.size }

/-- Numbers those among some parts that have no number yet, and lists them. -/
def enlist (i : Inventory) : List Part → Inventory × List Part
  | [] => (i, [])
  | p :: ps =>
    if i.knows p then enlist i ps
    else
      let (j, new) := enlist (i.add p) ps
      (j, p :: new)

/-- What is enlisted was among the parts. -/
theorem mem_of_mem_enlist {i : Inventory} {ps : List Part} {p : Part}
    (h : p ∈ (i.enlist ps).2) : p ∈ ps := by
  induction ps generalizing i with
  | nil => simp [enlist] at h
  | cons q ps ih =>
    rw [enlist] at h
    split at h
    · exact List.mem_cons_of_mem _ (ih h)
    · rcases List.mem_cons.1 h with rfl | h
      · exact List.mem_cons_self
      · exact List.mem_cons_of_mem _ (ih h)

/-- A number above the measures of all parts of a level. -/
private noncomputable def bound : List Part → Nat
  | [] => 0
  | p :: ps => max (p.weight + 1) (bound ps)

private theorem weight_lt_bound {p : Part} {ps : List Part} (h : p ∈ ps) :
    p.weight < bound ps := by
  induction ps with
  | nil => simp at h
  | cons q ps ih =>
    rcases List.mem_cons.1 h with rfl | h
    · simp only [bound]; omega
    · have := ih h
      simp only [bound]; omega

private theorem bound_lt {ps qs : List Part} (hp : ps ≠ [])
    (h : ∀ q ∈ qs, ∃ p ∈ ps, q ∈ p.below) : bound qs < bound ps := by
  induction qs with
  | nil =>
    obtain ⟨p, ps, rfl⟩ := List.exists_cons_of_ne_nil hp
    simp only [bound]; omega
  | cons q qs ih =>
    have hqs := ih fun r hr => h r (List.mem_cons_of_mem _ hr)
    obtain ⟨p, hp, hq⟩ := h q List.mem_cons_self
    have := weight_lt_bound hp
    have := Part.weight_lt_of_mem_below hq
    simp only [bound]; omega

/-- All that is directly below a level of parts. -/
def nextLevel (level : List Part) : List Part := level.flatMap Part.below

/-- Numbers all that is below a level of parts, and lists the level and all that is new below it. -/
def explore (i : Inventory) : List Part → Inventory × List Part
  | [] => (i, [])
  | p :: ps =>
    let next := i.enlist (nextLevel (p :: ps))
    let (j, deeper) := explore next.1 next.2
    (j, p :: ps ++ deeper)
termination_by level => bound level
decreasing_by
  exact bound_lt (List.cons_ne_nil p ps) fun q hq => List.mem_flatMap.1 (mem_of_mem_enlist hq)

/-- The record of a part. -/
def record (i : Inventory) (p : Part) : Record :=
  match p with
  | .node n => .node (i.id p) n ((slotParts n.fields).map fun s => (s.1, s.2.map i.id))
  | .row r => .row (i.id p) r (r.items.map fun n => i.id (.node n))

/-- Mentions parts: numbers them and all that is below them, and describes what is new. -/
def mention (ps : List Part) (i : Inventory) : List Record × Inventory :=
  let new := i.enlist ps
  let (j, parts) := explore new.1 new.2
  (parts.map j.record, j)

end Inventory

end SharedTree.Workbench
