import Mathlib.Data.List.Basic
import SharedTree.Node.Listing

/-!
# The children that are listed

What the children of a node are is written down twice: by the schema, from slot to slot (`Node.children`), and kind by
kind for callers, who are given what is read by the names of slots (`Node.listed`). No kind has two slots of one name,
so that what is read under a name is what is in the slot (`Fields.read_all`), and the two agree (`Node.listed_eq`).
-/

namespace SharedTree

variable {α η : Type}

/-- No two slots of a kind have the same name. -/
theorem Kind.slots_nodup (k : Kind) : (k.slots.map Slot.name).Nodup := by
  cases k <;> decide

/-- The key of a slot: how it is read, and its name. -/
def Slot.key (s : Slot) : Arity × String := (s.arity, s.name)

/-- The slots that are read are the slots of the schema, in the same order. -/
theorem Kind.listing_eq (k : Kind) : k.listing = k.slots.map Slot.key := by
  cases k <;> rfl

private theorem Fields.read_head {s : Slot} {ss : List Slot} (c : Child α (Row η α) s.arity)
    (rest : Fields α (Row η α) ss) : (Fields.cons c rest).read s.key = c.nodes := by
  obtain ⟨name, arity, label⟩ := s
  have node : (Fields.cons (s := ⟨name, arity, label⟩) c rest).node? name = c.node? := if_pos rfl
  have row : (Fields.cons (s := ⟨name, arity, label⟩) c rest).row? name = c.row? := if_pos rfl
  cases c with
  | one n => exact congrArg Option.toList node
  | opt n => exact congrArg Option.toList node
  | row r => exact congrArg (Option.elim · [] Row.items) row
  | optRow r =>
    refine (congrArg (Option.elim · [] Row.items) row).trans ?_
    cases r <;> rfl

private theorem Fields.read_tail {s : Slot} {ss : List Slot} (c : Child α (Row η α) s.arity)
    (rest : Fields α (Row η α) ss) {arity : Arity} {name : String} (h : s.name ≠ name) :
    (Fields.cons c rest).read (arity, name) = rest.read (arity, name) := by
  have node : (Fields.cons c rest).node? name = rest.node? name := if_neg h
  have row : (Fields.cons c rest).row? name = rest.row? name := if_neg h
  cases arity <;> simp only [Fields.read, node, row]

/-- What is read slot by slot are all nodes in the slots. -/
theorem Fields.read_all {ss : List Slot} (fs : Fields α (Row η α) ss) (distinct : (ss.map Slot.name).Nodup) :
    (ss.map Slot.key).flatMap fs.read = fs.nodes := by
  induction fs with
  | nil => rfl
  | @cons s ss c rest ih =>
    obtain ⟨fresh, distinct⟩ := List.nodup_cons.mp distinct
    have others : ∀ key ∈ ss.map Slot.key, (Fields.cons c rest).read key = rest.read key := by
      rintro key hk
      obtain ⟨r, hr, rfl⟩ := List.mem_map.mp hk
      exact read_tail c rest fun same => fresh (same ▸ List.mem_map_of_mem hr)
    rw [List.map_cons, List.flatMap_cons, read_head, List.flatMap_congr others, ih distinct, Fields.nodes]

/-- What is listed for callers are the children in the order of the slots. -/
theorem Node.listed_eq (n : Node η) : n.listed = n.children := by
  rw [listed, Kind.listing_eq]
  exact n.fields.read_all n.kind.slots_nodup

end SharedTree
