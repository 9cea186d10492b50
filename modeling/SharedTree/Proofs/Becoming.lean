import SharedTree.Proofs.Parallel
import SharedTree.Proofs.Sharing

/-!
# What becomes of a tree

A run that succeeds makes of every node below the root another node, or none. What a single visit makes of a node is
a relation `R` of the node and the result; `ItemsBecome R`, `Child.Becomes R` and `Fields.Becomes R` say the same of
rows, of children and of all slots of a node.

* `FieldsPassage.becomes`: what is in the slots in the end has become of what was in them before.
* `Descends.inner`: the descent below a node changes nothing of the node but the slots.
-/

namespace SharedTree

variable {R : SharedNode → Option SharedNode → Prop}

/-- The second list holds what becomes of the elements of the first one, without those of which nothing is left. -/
inductive ItemsBecome (R : SharedNode → Option SharedNode → Prop) : List SharedNode → List SharedNode → Prop
  | nil : ItemsBecome R [] []
  | drop {n : SharedNode} {ns ms : List SharedNode} (h : R n none) (rest : ItemsBecome R ns ms) :
      ItemsBecome R (n :: ns) ms
  | keep {n m : SharedNode} {ns ms : List SharedNode} (h : R n (some m)) (rest : ItemsBecome R ns ms) :
      ItemsBecome R (n :: ns) (m :: ms)

/-- What is absent stays absent. -/
inductive OptBecomes (R : SharedNode → Option SharedNode → Prop) : Option SharedNode → Option SharedNode → Prop
  | absent : OptBecomes R none none
  | visited {n : SharedNode} {answer : Option SharedNode} (h : R n answer) : OptBecomes R (some n) answer

/-- Rows keep their spans. -/
structure Row.Becomes (R : SharedNode → Option SharedNode → Prop) (r q : SharedRow) : Prop where
  span : q.span = r.span
  items : ItemsBecome R r.items q.items

/-- What becomes of a child. -/
abbrev Child.Becomes (R : SharedNode → Option SharedNode → Prop) {a : Arity} (c d : Child SharedNode SharedRow a) :
    Prop := c.Rel (OptBecomes R) (Row.Becomes R) d

/-- What becomes of all slots of a node. -/
abbrev Fields.Becomes (R : SharedNode → Option SharedNode → Prop) {ss : List Slot}
    (fs gs : Fields SharedNode SharedRow ss) : Prop := fs.Rel (OptBecomes R) (Row.Becomes R) gs

private theorem ItemsBecome.exists_of_mem {ns ms : List SharedNode} (h : ItemsBecome R ns ms) {m : SharedNode}
    (hm : m ∈ ms) : ∃ n, R n (some m) := by
  induction h with
  | nil => exact absurd hm List.not_mem_nil
  | drop _ _ ih => exact ih hm
  | @keep n _ _ _ h _ ih =>
    rcases List.mem_cons.mp hm with rfl | hm
    · exact ⟨n, h⟩
    · exact ih hm

private theorem Child.Becomes.exists_of_mem {a : Arity} {c d : Child SharedNode SharedRow a} (h : c.Becomes R d)
    {m : SharedNode} (hm : m ∈ d.nodes) : ∃ n, R n (some m) := by
  cases h with
  | @one n _ h =>
    cases h with
    | visited h => exact ⟨n, List.mem_singleton.mp hm ▸ h⟩
  | opt h =>
    cases h with
    | absent => exact absurd hm List.not_mem_nil
    | @visited n _ h => exact ⟨n, Option.mem_toList.mp hm ▸ h⟩
  | row h => exact h.items.exists_of_mem hm
  | noRow => exact absurd hm List.not_mem_nil
  | optRow h => exact h.items.exists_of_mem hm

/-- Every node that there is in the end has become of one. -/
theorem Fields.Becomes.exists_of_mem {ss : List Slot} {fs gs : Fields SharedNode SharedRow ss} (h : fs.Becomes R gs)
    {m : SharedNode} (hm : m ∈ gs.nodes) : ∃ n, R n (some m) := by
  induction h with
  | nil => exact absurd hm List.not_mem_nil
  | cons h _ ih =>
    rcases List.mem_append.mp hm with hm | hm
    · exact Child.Becomes.exists_of_mem h hm
    · exact ih hm

private theorem ItemsBecome.append {ns ms ns' ms' : List SharedNode} (h : ItemsBecome R ns ms)
    (h' : ItemsBecome R ns' ms') : ItemsBecome R (ns ++ ns') (ms ++ ms') := by
  induction h with
  | nil => exact h'
  | drop gone _ ih => exact .drop gone ih
  | keep kept _ ih => exact .keep kept ih

private theorem ItemsBecome.of_answer {n : SharedNode} {answer : Option SharedNode} (h : R n answer) :
    ItemsBecome R [n] answer.toList := by
  cases answer with
  | none => exact .drop h .nil
  | some m => exact .keep h .nil

namespace Pass

open Transform (Call)

variable {σ : Type}

section Passage

variable {region : Nat} {visit : SharedNode → Run (Logged σ) (Option SharedNode)}
  (hR : ∀ {p n a q}, Visited region visit p n a q → R n a) {p q : Progress (Logged σ)}

private theorem becomes_additive (R : SharedNode → Option SharedNode → Prop) :
    Additive fun (_ _ : Progress (Logged σ)) ns ms => ItemsBecome R ns ms where
  nil _ := .nil
  append := .append
  rowMade h := h

include hR

private theorem RowPassage.becomes {r r' : SharedRow} (h : RowPassage region visit p r r' q) : r.Becomes R r' := by
  have items := (becomes_additive R).row (fun v => .of_answer (hR v)) h
  cases h <;> exact ⟨rfl, items⟩

private theorem ChildPassage.becomes {a : Arity} {c d : Child SharedNode SharedRow a}
    (h : ChildPassage region visit p c d q) : c.Becomes R d := by
  cases h with
  | one v => exact .one (.visited (hR v))
  | absent => exact .opt .absent
  | opt v => exact .opt (.visited (hR v))
  | row passage => exact .row (passage.becomes hR)
  | noRow => exact .noRow
  | optRow passage => exact .optRow (passage.becomes hR)

/-- In the end the slots hold what has become of the nodes that were in them before. -/
theorem FieldsPassage.becomes {ss : List Slot} {fs gs : Fields SharedNode SharedRow ss}
    (h : FieldsPassage region visit p fs gs q) : fs.Becomes R gs := by
  induction h with
  | nil p => exact .nil
  | cons first _ ih => exact .cons (first.becomes hR) ih

end Passage

section Descend

variable (region : Nat) (t : Transform σ) (limit budget : Nat)

/-- What a descent with a budget makes of a node somewhere in a lawful run. -/
def Descends (n m : SharedNode) : Prop :=
  ∃ p q, p.supply.region = region ∧ descend t.recorded limit budget n p = .ok m q ∧ q.Lawful region

/-- What a visit with a budget makes of a node somewhere in a lawful run: the transform removes it, or its answer
becomes what the descent makes of it. -/
inductive Visits (n : SharedNode) : Option SharedNode → Prop
  | removed (s : σ) (h : (t n s).answer = .ok none) : Visits n none
  | answered {m m' : SharedNode} (s : σ) (h : (t n s).answer = .ok (some m)) (avoid : m.Avoids region)
      (below : Descends region t limit budget m m') : Visits n (some m')

variable {region t limit budget}

private theorem visits_of_ok {n : SharedNode} {p q : Progress (Logged σ)} {a : Option SharedNode}
    (hp : p.supply.region = region) (h : visit t.recorded limit budget n p = .ok a q) (hl : q.Lawful region) :
    Visits region t limit budget n a := by
  rcases visitWith_of_ok (descend_moves budget) h hl with
    ⟨removed, rfl, rfl⟩ | ⟨m, m', answered, ⟨avoid, -⟩, rfl, below⟩
  · exact .removed _ removed
  · exact .answered _ answered avoid ⟨p.heed n (t.recorded n p.state), q, hp, below, hl⟩

/-- A terminal node comes back as it is from a descent that has a level. -/
theorem Descends.terminal {n m : SharedNode} (h : Descends region t limit budget n m)
    (hn : n.kind.isTerminal = true) : 0 < budget ∧ m = n := by
  obtain ⟨p, q, -, h, -⟩ := h
  cases budget with
  | zero => cases h
  | succ budget =>
    rw [descend_terminal t.recorded limit budget p hn] at h
    cases h
    exact ⟨Nat.succ_pos budget, rfl⟩

/-- The descent below a node that is not terminal gives back a node with the same span, flags, kind and payload. In the
slots are what the visits with one level less have made. -/
theorem Descends.inner {n m : SharedNode} (h : Descends region t limit budget n m) (ha : n.Avoids region)
    (hn : n.kind.isTerminal = false) : ∃ less g fs, budget = less + 1 ∧
      m = .mk g n.span n.flags n.kind n.payload fs ∧ n.fields.Becomes (Visits region t limit less) fs := by
  obtain ⟨p, q, hp, h, hl⟩ := h
  cases budget with
  | zero => cases h
  | succ budget =>
    obtain ⟨g, fs, q₁, rfl, -, -, passage⟩ := descend_of_ok ha hn hp h hl
    exact ⟨budget, g, fs, rfl, rfl, passage.becomes fun v => visits_of_ok v.start v.run v.lawful⟩

/-- What a run of a runner that succeeds makes of a node. -/
theorem Runner.Orderly.descends {r : Runner} {n m : SharedNode} {s : σ} (orderly : r.Orderly region t (.descend n) s)
    (h : (r.descend? region t n s).outcome = .ok m) : Descends region t r.options.limit r.options.limit n m := by
  obtain ⟨q, run, lawful, -⟩ := orderly.run_of_ok h
  exact ⟨_, q, rfl, run, lawful⟩

end Descend

end Pass

end SharedTree
