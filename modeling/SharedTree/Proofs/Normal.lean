import SharedTree.Proofs.Height
import SharedTree.Proofs.RoundTrip

/-!
# Accepted texts have a normal form

A text from which a node is read may spell it in many ways. The text that is written of the node is again one from which
it is read, and it is not nested deeper than the text that was accepted: every bracket that is written has one that was
read for it.

* `Draft.readStructure_keeps` and `Draft.readVariant_eq_ok` say what is behind a successful reading of a structure and
  of a variant.
* `Reads` are the bounds for all readers under one budget, and `reads` is the induction over the budgets.
* `Node.readFrom_normal` is the statement for a whole text.
-/

namespace SharedTree

open Json

/-! ### Readings that succeed -/

namespace Json

variable {α β κ : Type}

theorem Reading.bind_eq_ok {x : Reading α} {f : α → Reading β} {b : β} (h : (x >>= f) = .ok b) :
    ∃ a, x = .ok a ∧ f a = .ok b := by
  cases x with
  | ok a => exact ⟨a, rfl, h⟩
  | error e => cases h

private theorem Reading.map_eq_ok {x : Reading α} {f : α → β} {b : β} (h : x.map f = .ok b) :
    ∃ a, x = .ok a ∧ f a = b := by
  cases x with
  | ok a => exact ⟨a, rfl, Except.ok.inj h⟩
  | error e => cases h

private theorem depthItems_le {js : List Json} {k : Nat} : depthItems js ≤ k ↔ ∀ j ∈ js, j.depth ≤ k := by
  induction js with
  | nil => simp [depthItems]
  | cons j js ih => simp [depthItems, ih]

private theorem depthMembers_le {ms : List (String × Json)} {k : Nat} :
    depthMembers ms ≤ k ↔ ∀ m ∈ ms, m.2.depth ≤ k := by
  induction ms with
  | nil => simp [depthMembers]
  | cons m ms ih =>
    obtain ⟨name, j⟩ := m
    simp [depthMembers, ih]

namespace Draft

private theorem takeOnce_eq_ok {old new : Option α} {read : Reading α} (h : takeOnce old read = .ok new) :
    ∃ a, read = .ok a ∧ new = some a := by
  cases old with
  | none =>
    obtain ⟨a, taken, rfl⟩ := Reading.map_eq_ok h
    exact ⟨a, taken, rfl⟩
  | some _ => cases h

private theorem takeOnce_forall {P : α → Prop} {old new : Option α} {read : Reading α} (h : takeOnce old read = .ok new)
    (reads : ∀ a, read = .ok a → P a) : ∀ a ∈ new, P a := by
  obtain ⟨a, taken, rfl⟩ := takeOnce_eq_ok h
  rintro _ ⟨rfl⟩
  exact reads a taken

private theorem required_eq_ok {x : Option α} {a : α} (h : required x = .ok a) : x = some a := by
  cases x with
  | none => cases h
  | some b => rw [Except.ok.inj h]

section Structure

variable {P : α → Prop} {take : String → Draft → α → Reading α} {broken : Option Fault}

private theorem takeMembers_keeps {fields : List String} {ms : List (Draft × Draft)}
    (keeps : ∀ m ∈ ms, ∀ name a b, P a → take name m.2 a = .ok b → P b) {a b : α} (start : P a)
    (h : takeMembers fields take broken ms a = .ok b) : P b := by
  induction ms generalizing a with
  | nil =>
    cases broken with
    | none => rwa [← Except.ok.inj h]
    | some f => cases h
  | cons m ms ih =>
    obtain ⟨key, d⟩ := m
    have others := fun m hm => keeps m (List.mem_cons_of_mem _ hm)
    rw [takeMembers] at h
    obtain ⟨name, -, h⟩ := Reading.bind_eq_ok h
    split at h
    · obtain ⟨a', taken, h⟩ := Reading.bind_eq_ok h
      exact ih others (keeps (key, d) List.mem_cons_self name a a' start taken) h
    · split at h
      · cases h
      · exact ih others start h

private theorem takeItems_keeps {short : Option Fault} {names : List String} {ds : List Draft}
    (keeps : ∀ d ∈ ds, ∀ name a b, P a → take name d a = .ok b → P b) {a b : α} (start : P a)
    (h : takeItems short take broken names ds a = .ok b) : P b := by
  induction ds generalizing names a with
  | nil =>
    cases names <;> cases broken <;> cases short <;> cases h <;> exact start
  | cons d ds ih =>
    cases names with
    | nil => cases h
    | cons name names =>
      rw [takeItems] at h
      obtain ⟨a', taken, h⟩ := Reading.bind_eq_ok h
      exact ih (fun d hd => keeps d (List.mem_cons_of_mem _ hd)) (keeps d List.mem_cons_self name a a' start taken) h

/-- A structure that is read is a list or a record. What holds before it is read and is kept by each of its fields holds
in the end. -/
theorem readStructure_keeps {fields : List String} {short : Option Fault} {d : Draft}
    (keeps : ∀ name (e : Draft) a b, e.height < d.height → P a → take name e a = .ok b → P b) {a b : α} (start : P a)
    (h : readStructure fields short take a d = .ok b) : 0 < d.height ∧ P b := by
  cases d with
  | list items broken =>
    have below : ∀ e ∈ items, e.height < (list items broken).height := fun e he => by
      have := heightItems_le.mp (Nat.le_refl (heightItems items)) e he
      simp only [height]
      omega
    refine ⟨by simp only [height]; omega, takeItems_keeps (fun e he name a b => ?_) start h⟩
    exact keeps name e a b (below e he)
  | record members broken =>
    have below : ∀ m ∈ members, m.2.height < (record members broken).height := fun m hm => by
      have := heightMembers_le.mp (Nat.le_refl (heightMembers members)) m hm
      simp only [height]
      omega
    refine ⟨by simp only [height]; omega, takeMembers_keeps (fun m hm name a b => ?_) start h⟩
    exact keeps name m.2 a b (below m hm)
  | _ => cases h

end Structure

private theorem readOption_eq_ok {read : Draft → Reading α} {d : Draft} {x : Option α} (h : d.readOption read = .ok x) :
    x = none ∨ ∃ a, read d = .ok a ∧ x = some a := by
  rw [readOption.eq_def] at h
  split at h
  · exact .inl (Except.ok.inj h).symm
  · obtain ⟨a, taken, rfl⟩ := Reading.map_eq_ok h
    exact .inr ⟨a, taken, rfl⟩

/-- A variant that is read is a name that stands alone, or a record of one member. -/
theorem readVariant_eq_ok {lookup : String → Option κ} {bare : κ → Reading α}
    {content : Option (κ → Draft → Reading α)} {d : Draft} {a : α} (h : readVariant lookup bare content d = .ok a) :
    (∃ k, bare k = .ok a) ∨
      ∃ read k key e, content = some read ∧ d = .record [(key, e)] none ∧ read k e = .ok a := by
  cases d with
  | quoted q =>
    obtain ⟨k, -, h⟩ := Reading.bind_eq_ok h
    exact .inl ⟨k, h⟩
  | record members broken =>
    cases content with
    | none => cases h
    | some read =>
      cases members with
      | nil => cases broken <;> cases h
      | cons m rest =>
        obtain ⟨key, e⟩ := m
        rw [readVariant] at h
        obtain ⟨k, -, h⟩ := Reading.bind_eq_ok h
        obtain ⟨a', content, h⟩ := Reading.bind_eq_ok h
        cases rest with
        | cons _ _ => cases h
        | nil =>
          cases broken with
          | some f => cases h
          | none =>
            cases h
            exact .inr ⟨read, k, key, e, rfl, rfl, content⟩
  | _ => cases h

end Draft

end Json

/-! ### Parts without nodes -/

private theorem Span.depth_toJson (s : Span) : s.toJson.depth = 1 := by
  simp [Span.toJson, depth, depthMembers]

private theorem Span.read_depth {budget : Nat} {d : Draft} {s : Span} (h : Span.read (budget != 0) d = .ok s) :
    s.toJson.depth ≤ min budget d.height := by
  unfold Span.read at h
  cases budget with
  | zero => cases h
  | succ budget =>
    obtain ⟨parts, taken, -⟩ := Reading.bind_eq_ok h
    have opened := (Draft.readStructure_keeps (P := fun _ => True) (fun _ _ _ _ _ _ _ => trivial) trivial taken).1
    rw [Span.depth_toJson]
    omega

private theorem Flags.depth_toJson (f : Flags) : f.toJson.depth = 0 := by rw [Flags.toJson, depth]

private theorem Datum.read_depth {budget : Nat} {d : Draft} {sort : ValueSort} {x : Datum sort}
    (h : Datum.read (budget != 0) d sort = .ok x) : x.toJson.depth ≤ min budget d.height := by
  cases x with
  | text s => exact Nat.zero_le _
  | token t => exact Nat.zero_le _
  | keyword k => exact Nat.zero_le _
  | number n => exact Nat.zero_le _
  | numbers ns =>
    have flat : depthItems (ns.map fun n : UInt32 => Json.number n.toNat) ≤ 0 := by
      rw [depthItems_le, List.forall_mem_map]
      exact fun n _ => Nat.le_refl 0
    obtain ⟨_, taken, -⟩ := Reading.map_eq_ok h
    have opened : 1 ≤ min budget d.height := by
      cases d with
      | list items broken =>
        cases budget with
        | zero => cases taken
        | succ budget =>
          simp only [Draft.height]
          omega
      | _ => cases taken
    rw [Datum.toJson, depth]
    omega

/-! ### Data that is being read -/

namespace Pending

variable {ι : Type} {F : ι → Type}

/-- Everything that was read so far has a property. -/
def All (P : (i : ι) → F i → Prop) : {is : List ι} → Pending F is → Prop
  | _, .nil => True
  | _, @cons _ _ i _ x rest => (∀ a, x = some a → P i a) ∧ All P rest

variable {P : (i : ι) → F i → Prop}

private theorem all_empty (is : List ι) : (empty is : Pending F is).All P := by
  induction is with
  | nil => trivial
  | cons i is ih => exact ⟨nofun, ih⟩

theorem All.take {nameOf : ι → String} {name : String} {read : (i : ι) → Reading (F i)} {is : List ι}
    {x y : Pending F is} (all : x.All P) (reads : ∀ i a, read i = .ok a → P i a)
    (h : x.take nameOf name read = .ok y) : y.All P := by
  induction x with
  | nil =>
    cases h
    trivial
  | @cons i is x rest ih =>
    rw [Pending.take] at h
    split at h
    · obtain ⟨new, taken, rfl⟩ := Reading.map_eq_ok h
      obtain ⟨a, read, rfl⟩ := Draft.takeOnce_eq_ok taken
      refine ⟨fun b hb => ?_, all.2⟩
      cases hb
      exact reads i a read
    · obtain ⟨more, taken, rfl⟩ := Reading.map_eq_ok h
      exact ⟨all.1, ih all.2 taken⟩

end Pending

private theorem PendingPayload.complete_depth {k : Nat} {as : List Attribute} {x : PendingPayload as} {p : Payload as}
    (all : x.All fun _ d => d.toJson.depth ≤ k) (h : x.complete = .ok p) : depthMembers p.members ≤ k := by
  induction x with
  | nil =>
    cases h
    exact Nat.zero_le _
  | cons x rest ih =>
    rw [PendingPayload.complete] at h
    obtain ⟨d, taken, h⟩ := Reading.bind_eq_ok h
    obtain ⟨more, others, h⟩ := Reading.bind_eq_ok h
    cases h
    rw [Payload.members, depthMembers]
    exact Nat.max_le.mpr ⟨all.1 d (Draft.required_eq_ok taken), ih all.2 others⟩

/-- What was not read of a slot that may be empty is written as null. -/
theorem PendingFields.complete_depth {k : Nat} {ss : List Slot} {x : PendingFields ss}
    {fs : Fields Shape (Row Unit Shape) ss} (all : x.All fun _ c => c.encode.depth ≤ k) (h : x.complete = .ok fs) :
    depthMembers (fs.map Node.toJson (Row.map Node.toJson)).members ≤ k := by
  induction x with
  | nil =>
    cases h
    exact Nat.zero_le _
  | @cons s ss x rest ih =>
    rw [PendingFields.complete] at h
    obtain ⟨c, taken, h⟩ := Reading.bind_eq_ok h
    obtain ⟨more, others, h⟩ := Reading.bind_eq_ok h
    cases h
    have child : c.encode.depth ≤ k := by
      have found := Draft.required_eq_ok taken
      cases x with
      | some c' => exact all.1 c found
      | none =>
        -- the slot was left out, so that it is one that may be empty
        change Child.absent? s.arity = some c at found
        obtain ⟨name, arity, label⟩ := s
        cases arity <;> cases found <;> exact Nat.zero_le _
    rw [Fields.map, Fields.members, depthMembers]
    exact Nat.max_le.mpr ⟨child, ih all.2 others⟩

/-! ### Nodes -/

namespace Content

variable {c : Content}

private theorem depth_toJson_bare (h : c.kind.isBare = true) : c.toJson.depth = 0 := by
  rw [toJson, Kind.dataToJson, if_pos h, depth]

private theorem depth_toJson (h : c.kind.isBare = false) : c.toJson.depth = 1 + (1 + depthMembers c.members) := by
  rw [toJson, Kind.dataToJson, if_neg (by simp [h])]
  simp only [depth, depthMembers, Nat.max_zero]
  rfl

private theorem isBare_of_bare {k : Kind} (h : bare k = .ok c) : c.kind.isBare = true := by
  unfold bare at h
  split at h
  · obtain ⟨p, -, h⟩ := Reading.bind_eq_ok h
    obtain ⟨fs, -, h⟩ := Reading.bind_eq_ok h
    cases h
    assumption
  · cases h

end Content

/-- With a budget every reader yields what is nested no deeper than the budget and than the draft. -/
structure Reads (budget : Nat) : Prop where
  node : ∀ d n, Shape.read budget d = .ok n → n.toJson.depth ≤ min budget d.height
  data : ∀ d c, readData budget d = .ok c → c.toJson.depth ≤ min budget d.height
  content : ∀ k d c, readContent budget k d = .ok c → c.kind.isBare = false →
    1 + depthMembers c.members ≤ min budget d.height
  row : ∀ d r, readRow budget d = .ok r → (r.map Node.toJson).toJson.depth ≤ min budget d.height
  items : ∀ d ns, readItems budget d = .ok ns → 1 + depthItems (ns.map Node.toJson) ≤ min budget d.height

section Reads

variable {budget : Nat} {d : Draft}

private theorem Child.read_depth (h : Reads budget) {a : Arity} {c : Child Shape (Row Unit Shape) a}
    (read : Child.read (Shape.read budget) (readRow budget) a d = .ok c) : c.encode.depth ≤ min budget d.height := by
  cases a with
  | one =>
    obtain ⟨n, taken, rfl⟩ := Reading.map_eq_ok read
    exact h.node d n taken
  | row =>
    obtain ⟨r, taken, rfl⟩ := Reading.map_eq_ok read
    exact h.row d r taken
  | opt =>
    obtain ⟨x, taken, rfl⟩ := Reading.map_eq_ok read
    rcases Draft.readOption_eq_ok taken with rfl | ⟨n, present, rfl⟩
    · exact Nat.zero_le _
    · exact h.node d n present
  | optRow =>
    obtain ⟨x, taken, rfl⟩ := Reading.map_eq_ok read
    rcases Draft.readOption_eq_ok taken with rfl | ⟨r, present, rfl⟩
    · exact Nat.zero_le _
    · exact h.row d r present

private theorem Shape.read_depth (h : Reads budget) {n : Shape} (read : Shape.read (budget + 1) d = .ok n) :
    n.toJson.depth ≤ min (budget + 1) d.height := by
  unfold Shape.read at read
  obtain ⟨⟨span, flags, content⟩, taken, read⟩ := Reading.bind_eq_ok read
  obtain ⟨s, hs, read⟩ := Reading.bind_eq_ok read
  obtain ⟨f, -, read⟩ := Reading.bind_eq_ok read
  obtain ⟨c, hc, read⟩ := Reading.bind_eq_ok read
  cases read
  obtain rfl := Draft.required_eq_ok hs
  obtain rfl := Draft.required_eq_ok hc
  obtain ⟨opened, spans, contents⟩ : 0 < d.height ∧ (∀ x ∈ some s, x.toJson.depth ≤ min budget (d.height - 1)) ∧
      ∀ x ∈ some c, x.toJson.depth ≤ min budget (d.height - 1) := by
    refine Draft.readStructure_keeps (P := fun x : Option Span × Option Flags × Option Content =>
      (∀ s ∈ x.1, s.toJson.depth ≤ min budget (d.height - 1)) ∧
        ∀ c ∈ x.2.2, c.toJson.depth ≤ min budget (d.height - 1)) ?_ (by simp) taken
    rintro name e ⟨span, flags, content⟩ b lt ⟨spans, contents⟩ step
    dsimp only at step
    split_ifs at step
    · obtain ⟨new, loc, step⟩ := Reading.bind_eq_ok step
      cases step
      refine ⟨Draft.takeOnce_forall loc fun s loc => ?_, contents⟩
      have := Span.read_depth loc
      omega
    · obtain ⟨new, -, step⟩ := Reading.bind_eq_ok step
      cases step
      exact ⟨spans, contents⟩
    · obtain ⟨new, data, step⟩ := Reading.bind_eq_ok step
      cases step
      refine ⟨spans, Draft.takeOnce_forall data fun c data => ?_⟩
      have := h.data e c data
      omega
  have loc := spans s rfl
  have data := contents c rfl
  unfold Content.toJson at data
  rw [Content.shape, Node.toJson_mk]
  simp only [depth, depthMembers, Flags.depth_toJson]
  omega

private theorem readRow_depth (h : Reads budget) {r : Row Unit Shape} (read : readRow (budget + 1) d = .ok r) :
    (r.map Node.toJson).toJson.depth ≤ min (budget + 1) d.height := by
  unfold readRow at read
  obtain ⟨⟨span, items⟩, taken, read⟩ := Reading.bind_eq_ok read
  obtain ⟨s, hs, read⟩ := Reading.bind_eq_ok read
  obtain ⟨ns, hns, read⟩ := Reading.bind_eq_ok read
  cases read
  obtain rfl := Draft.required_eq_ok hs
  obtain rfl := Draft.required_eq_ok hns
  obtain ⟨opened, spans, elements⟩ : 0 < d.height ∧ (∀ x ∈ some s, x.toJson.depth ≤ min budget (d.height - 1)) ∧
      ∀ x ∈ some ns, 1 + depthItems (x.map Node.toJson) ≤ min budget (d.height - 1) := by
    refine Draft.readStructure_keeps (P := fun x : Option Span × Option (List Shape) =>
      (∀ s ∈ x.1, s.toJson.depth ≤ min budget (d.height - 1)) ∧
        ∀ ns ∈ x.2, 1 + depthItems (ns.map Node.toJson) ≤ min budget (d.height - 1)) ?_ (by simp) taken
    rintro name e ⟨span, items⟩ b lt ⟨spans, elements⟩ step
    dsimp only at step
    split_ifs at step
    · obtain ⟨new, loc, step⟩ := Reading.bind_eq_ok step
      cases step
      refine ⟨Draft.takeOnce_forall loc fun s loc => ?_, elements⟩
      have := Span.read_depth loc
      omega
    · obtain ⟨new, nodes, step⟩ := Reading.bind_eq_ok step
      cases step
      refine ⟨spans, Draft.takeOnce_forall nodes fun ns nodes => ?_⟩
      have := h.items e ns nodes
      omega
  have loc := spans s rfl
  have nodes := elements ns rfl
  simp only [Row.map, Row.toJson, depth, depthMembers]
  omega

private theorem readItems_depth (h : Reads budget) {ns : List Shape} (read : readItems (budget + 1) d = .ok ns) :
    1 + depthItems (ns.map Node.toJson) ≤ min (budget + 1) d.height := by
  cases d with
  | list items broken =>
    rw [readItems] at read
    have below : ∀ e ∈ items, e.height ≤ Draft.heightItems items := Draft.heightItems_le.mp (Nat.le_refl _)
    have elements : depthItems (ns.map Node.toJson) ≤ min budget (Draft.heightItems items) := by
      generalize Draft.heightItems items = most at below
      induction items generalizing ns with
      | nil =>
        cases broken with
        | none =>
          cases read
          exact Nat.zero_le _
        | some f => cases read
      | cons e items ih =>
        rw [Draft.readItems] at read
        obtain ⟨n, first, read⟩ := Reading.bind_eq_ok read
        obtain ⟨rest, others, read⟩ := Reading.bind_eq_ok read
        cases read
        obtain ⟨here, behind⟩ := List.forall_mem_cons.mp below
        have node := h.node e n first
        have nodes := ih others behind
        rw [List.map_cons, depthItems]
        omega
    rw [Draft.height]
    omega
  | _ => cases read

private theorem readContent_depth (h : Reads budget) {k : Kind} {c : Content}
    (read : readContent (budget + 1) k d = .ok c)
    (hc : c.kind.isBare = false) : 1 + depthMembers c.members ≤ min (budget + 1) d.height := by
  rw [readContent] at read
  split_ifs at read
  · obtain ⟨_, -, read⟩ := Reading.bind_eq_ok read
    rw [Content.isBare_of_bare read] at hc
    cases hc
  · obtain ⟨parts, taken, read⟩ := Reading.bind_eq_ok read
    obtain ⟨payload, attributes, read⟩ := Reading.bind_eq_ok read
    obtain ⟨fields, slots, read⟩ := Reading.bind_eq_ok read
    cases read
    obtain ⟨opened, values, children⟩ : 0 < d.height ∧
        parts.payload.All (fun _ x => x.toJson.depth ≤ min budget (d.height - 1)) ∧
        parts.fields.All fun _ c => c.encode.depth ≤ min budget (d.height - 1) := by
      refine Draft.readStructure_keeps (P := fun x : PendingContent k =>
        x.payload.All (fun _ x => x.toJson.depth ≤ min budget (d.height - 1)) ∧
          x.fields.All fun _ c => c.encode.depth ≤ min budget (d.height - 1)) ?_
        ⟨Pending.all_empty _, Pending.all_empty _⟩ taken
      rintro name e ⟨values, children⟩ b lt ⟨hv, hc⟩ step
      rw [PendingContent.take] at step
      split_ifs at step
      · obtain ⟨new, value, step⟩ := Reading.bind_eq_ok step
        cases step
        refine ⟨hv.take (fun a x read => ?_) value, hc⟩
        have := Datum.read_depth read
        omega
      · obtain ⟨new, child, step⟩ := Reading.bind_eq_ok step
        cases step
        refine ⟨hv, hc.take (fun s c read => ?_) child⟩
        have := Child.read_depth h read
        omega
    have inside : depthMembers (Content.members ⟨k, payload, fields⟩) ≤ min budget (d.height - 1) := by
      rw [Content.members, depthMembers_le, List.forall_mem_append, ← depthMembers_le, ← depthMembers_le]
      exact ⟨PendingPayload.complete_depth values attributes, PendingFields.complete_depth children slots⟩
    omega

private theorem readData_depth (h : Reads budget) {c : Content} (read : readData (budget + 1) d = .ok c) :
    c.toJson.depth ≤ min (budget + 1) d.height := by
  rw [readData] at read
  rcases Draft.readVariant_eq_ok read with ⟨k, bare⟩ | ⟨_, k, key, e, ⟨rfl⟩, rfl, content⟩
  · rw [Content.depth_toJson_bare (Content.isBare_of_bare bare)]
    exact Nat.zero_le _
  · cases hc : c.kind.isBare with
    | true =>
      rw [Content.depth_toJson_bare hc]
      exact Nat.zero_le _
    | false =>
      have inside := h.content k e c content hc
      rw [Content.depth_toJson hc]
      simp only [Draft.height, Draft.heightMembers]
      omega

end Reads

theorem reads (budget : Nat) : Reads budget := by
  induction budget with
  | zero =>
    refine ⟨nofun, fun d c read => ?_, fun k d c read hc => ?_, nofun, nofun⟩
    · rw [readData] at read
      rcases Draft.readVariant_eq_ok read with ⟨k, bare⟩ | ⟨_, k, key, e, none_left, -⟩
      · rw [Content.depth_toJson_bare (Content.isBare_of_bare bare)]
        exact Nat.zero_le _
      · cases none_left
    · rw [readContent] at read
      split_ifs at read
      obtain ⟨_, -, read⟩ := Reading.bind_eq_ok read
      rw [Content.isBare_of_bare read] at hc
      cases hc
  | succ budget ih =>
    exact
      { node := fun _ _ => Shape.read_depth ih
        data := fun _ _ => readData_depth ih
        content := fun _ _ _ => readContent_depth ih
        row := fun _ _ => readRow_depth ih
        items := fun _ _ => readItems_depth ih }

/-- What is read of a text is nested no deeper than the text. -/
theorem Shape.ofText_depth {text : String} {n : Shape} (h : Shape.ofText text = .ok n) :
    n.toJson.depth ≤ min nestingLimit (nesting text.toList) := by
  obtain ⟨m, read, h⟩ := Reading.bind_eq_ok h
  have same : m = n := by
    split_ifs at h
    exact Except.ok.inj h
  have shallow := (reads nestingLimit).node _ m read
  have scanned := Document.height_le_nesting text.toList
  rw [← same]
  omega

/-- The text of a node that was read from any text is nested no deeper than that text. A node is read from it again,
which is like the first one and has the same text. -/
theorem Node.readFrom_normal (s : Supply) (text : String) (n : SharedNode) (t : Supply)
    (accepted : readFrom s text = .ok (n, t)) :
    nesting n.toText.toList ≤ nesting text.toList ∧
      ∀ s', ∃ m t', readFrom s' n.toText = .ok (m, t') ∧ m.Alike n ∧ m.toText = n.toText := by
  obtain ⟨shape, read, built⟩ := Reading.map_eq_ok accepted
  obtain ⟨_, _, grown, same, -⟩ := shape.build_grows s
  rw [built] at grown
  cases grown
  have shallow := Shape.ofText_depth read
  rw [← same, n.toJson_shape, ← n.nesting_toText] at shallow
  refine ⟨by omega, fun s' => ?_⟩
  obtain ⟨m, t', again, alike, -⟩ := n.shape.build_grows s'
  refine ⟨m, t', ?_, alike, Node.Alike.toText alike⟩
  rw [readFrom, Shape.ofText_toText, within_map, again]
  exact if_pos (by omega)

/-- A declaration of a leaf is read from a text in which the initializer is left out. The members of the node stand in
another order, with a further one. The leaf and one of the spans are written as lists, and the flags as a mask. -/
theorem Node.readFrom_normal_declaration :
    let name := "[\x7b\"end\":1,\"pos\":0\x7d,\"\",\"ThisKeyword\"]"
    let data := "\x7b\"VariableDeclaration\":\x7b\"name\":" ++ name ++ "\x7d\x7d"
    let text := "\x7b\"data\":" ++ data ++ ",\"more\":[[1]],\"flags\":\" 0x1 \",\"loc\":[0,2]\x7d"
    let leaf : Shape := .mk () ⟨0, 1⟩ {} .thisKeyword .nil .nil
    let declaration : Shape :=
      .mk () ⟨0, 2⟩ .exported .variableDeclaration .nil (.cons (.one leaf) (.cons (.opt none) .nil))
    ∃ n t, readFrom ⟨0, 0, 0⟩ text = .ok (n, t) ∧ n.toText = declaration.toText ∧
      nesting n.toText.toList ≤ nesting text.toList ∧
      ∃ m t', readFrom ⟨1, 0, 0⟩ n.toText = .ok (m, t') ∧ m.Alike n := by
  intro name data text leaf declaration
  have written : (Shape.ofText text).map Node.toText = .ok declaration.toText := by decide +kernel
  obtain ⟨shape, read, same⟩ := Reading.map_eq_ok written
  obtain ⟨n, t, built, alike, -⟩ := Shape.build_grows shape ⟨0, 0, 0⟩
  have accepted : readFrom ⟨0, 0, 0⟩ text = .ok (n, t) := by
    rw [readFrom, read, ← built]
    rfl
  obtain ⟨shallow, again⟩ := Node.readFrom_normal ⟨0, 0, 0⟩ text n t accepted
  obtain ⟨m, t', back, alike', -⟩ := again ⟨1, 0, 0⟩
  refine ⟨n, t, accepted, ?_, shallow, m, t', back, alike'⟩
  rw [← same, ← alike, toText, toText, n.toJson_shape]

end SharedTree
