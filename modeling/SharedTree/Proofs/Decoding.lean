import SharedTree.Node.Decoding
import SharedTree.Proofs.Reading
import SharedTree.Proofs.Spelling

/-!
# Reading nodes

Every shape is read back from its JSON value, as long as the budget of nesting is not smaller than the depth of the
value (`Shape.read_toJson`).

* A name stands for one kind, token or keyword only, since the names in each of these lists differ.
* The attributes and slots of a node are read one by one. `Pending.before` is what was read of them before those that
  are still to come, and `Pending.take_before` says that reading the next one is a step from one such state to another.
-/

namespace SharedTree

open Json

/-! ### Spans and flags -/

theorem Span.read_toJson (s : Span) (budget : Nat) :
    Span.read (budget != 0) (draft s.toJson) = within s.toJson.depth budget s := by
  cases budget with
  | zero => exact (within_full 0 s).symm
  | succ budget =>
    have pos : Draft.readNumber (draft (.number s.pos.toNat)) = .ok s.pos := Draft.readNumber_draft s.pos
    have stop : Draft.readNumber (draft (.number s.stop.toNat)) = .ok s.stop := Draft.readNumber_draft s.stop
    refine Draft.readStructure_draft
      (fun rest => (if "pos" ∈ rest then none else some s.pos, if "end" ∈ rest then none else some s.stop))
      (by simp) ?_ (by simp) rfl
    simp [Span.read.take, Draft.takeOnce_none, pos, stop, depth, within_zero, Except.map]

theorem Flags.read_toJson (f : Flags) (budget : Nat) :
    Flags.read (draft f.toJson) = within f.toJson.depth budget f := by
  rw [Flags.read, Flags.toJson, Draft.readText_draft, ok_bind, String.toList_ofList, Flags.ofSpelling?_spelling]
  exact (within_zero ..).symm

/-! ### Names -/

/-- A name is looked up in a list without repetitions. -/
private theorem find?_name {κ : Type} {name : κ → String} {all : List κ} (nodup : (all.map name).Nodup) {k : κ}
    (hk : k ∈ all) : all.find? (name · == name k) = some k := by
  induction all with
  | nil => cases hk
  | cons x all ih =>
    obtain ⟨new, nodup⟩ := List.nodup_cons.mp nodup
    rcases List.mem_cons.mp hk with rfl | hk
    · exact List.find?_cons_of_pos (beq_self_eq_true _)
    · have other : name x ≠ name k := fun h => new (h ▸ List.mem_map_of_mem hk)
      rw [List.find?_cons_of_neg (by simpa using other), ih nodup hk]

private theorem Kind.ofName?_name (k : Kind) : Kind.ofName? k.name = some k :=
  find?_name (by decide +kernel) (by cases k <;> decide)

private theorem Token.ofName?_name (t : Token) : Token.ofName? t.name = some t :=
  find?_name (by decide +kernel) (by cases t <;> decide)

private theorem TypeKeyword.ofName?_name (k : TypeKeyword) : TypeKeyword.ofName? k.name = some k :=
  find?_name (by decide) (by cases k <;> decide)

theorem Datum.read_toJson {sort : ValueSort} (d : Datum sort) (budget : Nat) :
    Datum.read (budget != 0) (draft d.toJson) sort = within d.toJson.depth budget d := by
  cases d with
  | text s =>
    rw [Datum.read, Datum.toJson, Draft.readText_draft]
    exact (within_zero ..).symm
  | token t =>
    rw [Datum.read, Datum.toJson, Draft.readName_draft t.ofName?_name]
    exact (within_zero ..).symm
  | keyword k =>
    rw [Datum.read, Datum.toJson, Draft.readName_draft k.ofName?_name]
    exact (within_zero ..).symm
  | number n =>
    rw [Datum.read, Datum.toJson, Draft.readNumber_draft]
    exact (within_zero ..).symm
  | numbers ns =>
    cases budget with
    | zero => exact (within_full _ _).symm
    | succ budget =>
      have items : Draft.readItems Draft.readNumber none (draftItems (ns.map fun n => .number n.toNat)) =
          within (depthItems (ns.map fun n => .number n.toNat)) budget ns :=
        Draft.readItems_draft ns fun n _ => (Draft.readNumber_draft n).trans (within_zero ..).symm
      rw [Datum.toJson, depth, within_succ]
      show (Draft.readItems Draft.readNumber none (draftItems _)).map Datum.numbers = _
      rw [items]
      exact within_map ..

/-! ### Data that is being read -/

namespace Pending

variable {ι : Type} {F : ι → Type} {is : List ι} (nameOf : ι → String)

/-- What was read before the entries of the given names. -/
def before (rest : List String) : {is : List ι} → Pending F is → Pending F is
  | _, .nil => .nil
  | _, @cons _ _ i _ x more => .cons (if nameOf i ∈ rest then none else x) (before rest more)

/-- The values that were read. -/
def entries : {is : List ι} → Pending F is → List (Σ i, F i)
  | _, .nil => []
  | _, @cons _ _ i _ x more => (x.map fun a => ⟨i, a⟩).toList ++ more.entries

private theorem before_nil (x : Pending F is) : x.before nameOf [] = x := by
  induction x with
  | nil => rfl
  | cons x more ih => rw [before, ih, if_neg List.not_mem_nil]

private theorem before_cons {name : String} (rest : List String) (x : Pending F is) (h : name ∉ is.map nameOf) :
    x.before nameOf (name :: rest) = x.before nameOf rest := by
  induction x with
  | nil => rfl
  | @cons i is x more ih =>
    simp only [List.map_cons, List.mem_cons, not_or] at h
    rw [before, before, ih h.2]
    simp only [List.mem_cons, Ne.symm h.1, false_or]

private theorem before_all {rest : List String} (x : Pending F is) (h : ∀ name ∈ is.map nameOf, name ∈ rest) :
    x.before nameOf rest = .empty is := by
  induction x with
  | nil => rfl
  | @cons i is x more ih =>
    rw [before, if_pos (h _ (by simp)), ih fun name hn => h name (by simp_all)]
    rfl

private theorem name_mem_of_mem_entries {x : Pending F is} {e : Σ i, F i} (h : e ∈ x.entries) :
    nameOf e.1 ∈ is.map nameOf := by
  induction x with
  | nil => cases h
  | @cons i is x more ih =>
    rcases List.mem_append.mp h with h | h
    · obtain ⟨a, -, rfl⟩ := Option.map_eq_some_iff.mp (Option.mem_toList.mp h)
      exact List.mem_cons_self
    · exact List.mem_cons_of_mem _ (ih h)

/-- An entry is read. -/
theorem take_before {x : Pending F is} (nodup : (is.map nameOf).Nodup) {e : Σ i, F i} (he : e ∈ x.entries)
    {rest : List String} (new : nameOf e.1 ∉ rest) {read : (i : ι) → Reading (F i)} {need budget : Nat}
    (hread : read e.1 = within need budget e.2) :
    (x.before nameOf (nameOf e.1 :: rest)).take nameOf (nameOf e.1) read =
      within need budget (x.before nameOf rest) := by
  induction x with
  | nil => cases he
  | @cons i is x more ih =>
    obtain ⟨other, nodup⟩ := List.nodup_cons.mp nodup
    rcases List.mem_append.mp he with he | he
    · obtain ⟨a, rfl, rfl⟩ := Option.map_eq_some_iff.mp (Option.mem_toList.mp he)
      rw [before, before, if_pos List.mem_cons_self, if_neg new, before_cons nameOf rest more other, take, if_pos rfl,
        Draft.takeOnce_none, hread, within_map, within_map]
    · have mem := name_mem_of_mem_entries nameOf he
      have ne : nameOf i ≠ nameOf e.1 := fun h => other (h ▸ mem)
      rw [before, before, take, if_neg ne, ih nodup he, within_map]
      simp only [List.mem_cons, ne, false_or]

end Pending

/-- A payload of which everything was read. -/
def Payload.filled : {as : List Attribute} → Payload as → PendingPayload as
  | _, .nil => .nil
  | _, .cons d rest => .cons (some d) rest.filled

/-- Fields of which everything was read. -/
def Fields.filled : {ss : List Slot} → Fields Shape (Row Unit Shape) ss → PendingFields ss
  | _, .nil => .nil
  | _, .cons c rest => .cons (some c) rest.filled

private theorem Payload.complete_filled {as : List Attribute} (p : Payload as) : p.filled.complete = .ok p := by
  induction p with
  | nil => rfl
  | cons d rest ih =>
    rw [filled, PendingPayload.complete, ih]
    rfl

private theorem Fields.complete_filled {ss : List Slot} (fs : Fields Shape (Row Unit Shape) ss) :
    fs.filled.complete = .ok fs := by
  induction fs with
  | nil => rfl
  | @cons s ss c rest ih =>
    rw [filled, PendingFields.complete, ih]
    rfl

private theorem Payload.members_eq {as : List Attribute} (p : Payload as) :
    p.members = p.filled.entries.map fun e => (e.1.name, e.2.toJson) := by
  induction p with
  | nil => rfl
  | cons d rest ih =>
    rw [Payload.members, ih]
    rfl

private theorem Payload.members_names {as : List Attribute} (p : Payload as) :
    p.members.map Prod.fst = as.map Attribute.name := by
  induction p with
  | nil => rfl
  | cons d rest ih =>
    rw [members, List.map_cons, ih]
    rfl

private theorem Fields.members_names {η : Type} {ss : List Slot} (fs : Fields Json (Row η Json) ss) :
    fs.members.map Prod.fst = ss.map Slot.name := by
  induction fs with
  | nil => rfl
  | cons c rest ih =>
    rw [members, List.map_cons, ih]
    rfl

/-- A child as a value. -/
def Child.encode {a : Arity} (c : Child Shape (Row Unit Shape) a) : Json :=
  (c.map Node.toJson (Row.map Node.toJson)).toJson

private theorem Fields.members_eq {ss : List Slot} (fs : Fields Shape (Row Unit Shape) ss) :
    (fs.map Node.toJson (Row.map Node.toJson)).members = fs.filled.entries.map fun e => (e.1.name, e.2.encode) := by
  induction fs with
  | nil => rfl
  | cons c rest ih =>
    rw [Fields.map, Fields.members, ih]
    rfl

private theorem Fields.nodes_of_mem_entries {ss : List Slot} {fs : Fields Shape (Row Unit Shape) ss}
    {e : Σ s : Slot, Child Shape (Row Unit Shape) s.arity} (he : e ∈ fs.filled.entries) :
    ∀ n ∈ e.2.nodes, n ∈ fs.nodes := by
  induction fs with
  | nil => cases he
  | cons c rest ih =>
    intro n hn
    rcases List.mem_cons.mp he with rfl | he
    · exact List.mem_append_left _ hn
    · exact List.mem_append_right _ (ih he n hn)

/-! ### Nodes -/

theorem Node.toJson_mk {η : Type} (h : η) (span : Span) (flags : Flags) (k : Kind) (payload : Payload k.attributes)
    (fs : Fields (Node η) (Row η (Node η)) k.slots) :
    (Node.mk h span flags k payload fs).toJson = .record [("loc", span.toJson), ("flags", flags.toJson),
      ("data", k.dataToJson payload (fs.map Node.toJson (Row.map Node.toJson)))] :=
  fold_mk ..

/-- Whether a shape is read back within any budget. -/
def Shape.Returns (n : Shape) : Prop := ∀ budget, Shape.read budget (draft n.toJson) = within n.toJson.depth budget n

private theorem readRow_draft (r : Row Unit Shape) (h : ∀ n ∈ r.items, n.Returns) (budget : Nat) :
    readRow budget (draft (r.map Node.toJson).toJson) = within (r.map Node.toJson).toJson.depth budget r := by
  cases budget with
  | zero => exact (within_full _ r).symm
  | succ budget =>
    have items : readItems budget (draft (.list (r.items.map Node.toJson))) =
        within (1 + depthItems (r.items.map Node.toJson)) budget r.items := by
      cases budget with
      | zero => exact (within_full _ _).symm
      | succ budget =>
        rw [within_succ]
        exact Draft.readItems_draft r.items fun n hn => h n hn budget
    unfold readRow
    refine Draft.readStructure_draft
      (fun rest => (if "loc" ∈ rest then none else some r.span, if "nodes" ∈ rest then none else some r.items))
      (by simp) ?_ (by simp) rfl
    have span := Span.read_toJson r.span budget
    simp only [List.mem_cons, List.not_mem_nil, or_false, forall_eq_or_imp, forall_eq, true_or, or_true, true_and]
    refine ⟨fun rest new => ?_, fun rest new => ?_⟩
    · simp [Draft.takeOnce_none, Row.map, span, within_map, within_fmap, new]
    · simp [Draft.takeOnce_none, Row.map, items, depth, within_map, within_fmap, new]

private theorem Child.read_encode {a : Arity} (c : Child Shape (Row Unit Shape) a) (h : ∀ n ∈ c.nodes, n.Returns)
    (budget : Nat) : Child.read (Shape.read budget) (readRow budget) a (draft c.encode) =
      within c.encode.depth budget c := by
  cases c with
  | one n =>
    show (Shape.read budget (draft n.toJson)).map Child.one = _
    rw [h n (by simp [Child.nodes]) budget]
    exact within_map ..
  | opt n =>
    cases n with
    | none => exact (within_zero ..).symm
    | some n =>
      have present : (draft n.toJson).readOption (Shape.read budget) =
          (Shape.read budget (draft n.toJson)).map some := by
        cases n
        rw [Node.toJson_mk]
        rfl
      show ((draft n.toJson).readOption (Shape.read budget)).map Child.opt = _
      rw [present, h n (by simp [Child.nodes]) budget, within_map]
      exact within_map ..
  | row r =>
    show (readRow budget (draft (r.map Node.toJson).toJson)).map Child.row = _
    rw [readRow_draft r h budget]
    exact within_map ..
  | optRow r =>
    cases r with
    | none => exact (within_zero ..).symm
    | some r =>
      show ((readRow budget (draft (r.map Node.toJson).toJson)).map some).map Child.optRow = _
      rw [readRow_draft r h budget, within_map]
      exact within_map ..

private theorem PendingContent.names_nodup (k : Kind) : (names k).Nodup := by
  cases k <;> decide

/-! ### The data of a node -/

namespace Content

/-- The value of the data of a node. -/
def toJson (c : Content) : Json := c.kind.dataToJson c.payload (c.fields.map Node.toJson (Row.map Node.toJson))

/-- The attributes and slots as members. -/
def members (c : Content) : List (String × Json) :=
  c.payload.members ++ (c.fields.map Node.toJson (Row.map Node.toJson)).members

/-- What was read of some content before the attributes and slots of the given names. -/
def pending (c : Content) (rest : List String) : PendingContent c.kind :=
  ⟨c.payload.filled.before Attribute.name rest, c.fields.filled.before Slot.name rest⟩

variable (c : Content)

private theorem members_names : c.members.map Prod.fst = PendingContent.names c.kind := by
  rw [members, List.map_append, Payload.members_names, Fields.members_names]
  rfl

private theorem pending_names : c.pending (PendingContent.names c.kind) = {} := by
  have attributes : c.payload.filled.before Attribute.name (PendingContent.names c.kind) = .empty _ :=
    c.payload.filled.before_all Attribute.name fun name h => List.mem_append_left _ h
  have slots : c.fields.filled.before Slot.name (PendingContent.names c.kind) = .empty _ :=
    c.fields.filled.before_all Slot.name fun name h => List.mem_append_right _ h
  rw [pending, attributes, slots]

private theorem complete_pending_nil : (c.pending []).complete = .ok c := by
  rw [pending, Pending.before_nil, Pending.before_nil, PendingContent.complete, Payload.complete_filled, ok_bind,
    Fields.complete_filled]
  rfl

private theorem bare_of_isBare (hk : c.kind.isBare = true) : bare c.kind = .ok c := by
  have nothing : PendingContent.names c.kind = [] := by
    simp only [Kind.isBare, Bool.and_eq_true, List.isEmpty_iff] at hk
    rw [PendingContent.names, hk.1, hk.2]
    rfl
  rw [bare, if_pos hk, ← pending_names, nothing, complete_pending_nil]

/-- One step of the reading: the attribute or the slot of a name is read, those before it having been read. -/
private theorem take_member (h : ∀ n ∈ c.fields.nodes, n.Returns) (budget : Nat) {m : String × Json}
    (hm : m ∈ c.members) {rest : List String} (new : m.1 ∉ rest) :
    PendingContent.take (budget != 0) (Child.read (Shape.read budget) (readRow budget)) m.1 (draft m.2)
      (c.pending (m.1 :: rest)) = within m.2.depth budget (c.pending rest) := by
  obtain ⟨attributes, slots, disjoint⟩ := List.nodup_append.mp (PendingContent.names_nodup c.kind)
  rw [members, Payload.members_eq, Fields.members_eq] at hm
  rcases List.mem_append.mp hm with hm | hm
  · obtain ⟨e, he, rfl⟩ := List.mem_map.mp hm
    have mem := Pending.name_mem_of_mem_entries Attribute.name he
    have other : e.1.name ∉ c.kind.slots.map Slot.name := fun h => disjoint _ mem _ h rfl
    have taken : (c.payload.filled.before Attribute.name (e.1.name :: rest)).take Attribute.name e.1.name
        (fun a => Datum.read (budget != 0) (draft e.2.toJson) a.sort) =
          within e.2.toJson.depth budget (c.payload.filled.before Attribute.name rest) :=
      Pending.take_before Attribute.name attributes he new (e.2.read_toJson budget)
    rw [PendingContent.take, if_pos (List.contains_iff_mem.mpr mem), pending, taken,
      Pending.before_cons Slot.name rest _ other]
    exact within_fmap ..
  · obtain ⟨e, he, rfl⟩ := List.mem_map.mp hm
    have mem := Pending.name_mem_of_mem_entries Slot.name he
    have other : e.1.name ∉ c.kind.attributes.map Attribute.name := fun h => disjoint _ h _ mem rfl
    have taken : (c.fields.filled.before Slot.name (e.1.name :: rest)).take Slot.name e.1.name
        (fun s => Child.read (Shape.read budget) (readRow budget) s.arity (draft e.2.encode)) =
          within e.2.encode.depth budget (c.fields.filled.before Slot.name rest) :=
      Pending.take_before Slot.name slots he new
        (e.2.read_encode (fun n hn => h n (Fields.nodes_of_mem_entries he n hn)) budget)
    rw [PendingContent.take, if_neg (by simpa using other), pending, taken,
      Pending.before_cons Attribute.name rest _ other]
    exact within_fmap ..

private theorem read_members (hk : c.kind.isBare = false) (h : ∀ n ∈ c.fields.nodes, n.Returns) (budget : Nat) :
    readContent budget c.kind (draft (.record c.members)) = within (1 + depthMembers c.members) budget c := by
  cases budget with
  | zero =>
    rw [readContent, hk]
    exact (within_full _ _).symm
  | succ budget =>
    rw [readContent, hk]
    refine Draft.readStructure_draft c.pending ?_ (fun m hm => ⟨?_, fun rest new => ?_⟩) ?_ ?_
    · rw [members_names]
      exact PendingContent.names_nodup c.kind
    · rw [← members_names]
      exact List.mem_map_of_mem hm
    · exact c.take_member h budget hm new
    · rw [members_names, pending_names]
    · exact c.complete_pending_nil

theorem read_toJson (h : ∀ n ∈ c.fields.nodes, n.Returns) (budget : Nat) :
    readData budget (draft c.toJson) = within c.toJson.depth budget c := by
  have name : Draft.readCase Kind.ofName? (quotedOf c.kind.name).read = .ok c.kind :=
    Draft.readCase_draft c.kind.ofName?_name
  cases hk : c.kind.isBare with
  | true =>
    have alone : ∀ content, Draft.readVariant Kind.ofName? bare content (draft (.text c.kind.name)) = .ok c := by
      intro content
      rw [draft, Draft.readVariant, name, ok_bind, c.bare_of_isBare hk]
    rw [toJson, Kind.dataToJson, if_pos hk]
    cases budget with
    | zero => exact (alone none).trans (within_zero ..).symm
    | succ budget => exact (alone (some (readContent budget))).trans (within_zero ..).symm
  | false =>
    have json : c.toJson = .record [(c.kind.name, .record c.members)] := by
      rw [toJson, Kind.dataToJson, if_neg (by simp [hk])]
      rfl
    have depth : c.toJson.depth = 1 + (1 + depthMembers c.members) := by
      rw [json]
      simp only [depth, depthMembers, Nat.max_zero]
    rw [depth, json]
    cases budget with
    | zero => exact (within_full _ _).symm
    | succ budget =>
      rw [within_succ, ← c.read_members hk h budget]
      show (Draft.readCase Kind.ofName? (quotedOf c.kind.name).read >>= fun k =>
        readContent budget k (draft (.record c.members)) >>= fun a => pure a) = _
      rw [name, ok_bind]
      exact bind_pure _

end Content

/-- Every shape is read back from its value if the budget is as great as the value is deep, and otherwise the reading
fails. -/
theorem Shape.read_toJson (n : Shape) : n.Returns := by
  induction n using Node.induct with
  | step n ih =>
    cases n with
    | mk _ span flags k payload fs =>
      intro budget
      rw [Node.toJson_mk]
      cases budget with
      | zero => exact (within_full _ _).symm
      | succ budget =>
        have loc := span.read_toJson budget
        have flag := flags.read_toJson budget
        have content : Content.toJson ⟨k, payload, fs⟩ =
          k.dataToJson payload (fs.map Node.toJson (Row.map Node.toJson)) := rfl
        have data := Content.read_toJson ⟨k, payload, fs⟩ ih budget
        unfold Shape.read
        -- what was read before the members of some names is told by these names
        refine Draft.readStructure_draft (fun rest => (if "loc" ∈ rest then none else some span,
          if "flags" ∈ rest then none else some flags,
          if "data" ∈ rest then none else some (⟨k, payload, fs⟩ : Content))) (by simp) ?_ (by simp) rfl
        simp only [List.mem_cons, List.not_mem_nil, or_false, forall_eq_or_imp, forall_eq, true_or, or_true, true_and]
        refine ⟨fun rest new => ?_, fun rest new => ?_, fun rest new => ?_⟩
        · simp [Draft.takeOnce_none, loc, within_map, within_fmap, new]
        · simp [Draft.takeOnce_none, flag, within_map, within_fmap, new]
        · simp [Draft.takeOnce_none, ← content, data, within_map, within_fmap, new]

end SharedTree
