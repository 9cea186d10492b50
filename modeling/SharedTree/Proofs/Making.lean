import SharedTree.Node.Factory
import SharedTree.Proofs.Building
import SharedTree.Proofs.Error
import SharedTree.Proofs.Listing
import SharedTree.Proofs.Update

/-!
# Nodes that are made of arguments

What a node of a kind holds is written down three times: as what is asked for to make it (`Kind.parameters`), as its
attributes and slots, and as the slots that are read for its children (`Kind.listing`). `Kind.child?_parameters`,
`Kind.value?_parameters` and `Kind.listing_eq` compare these lists for all kinds. The rest is by names, of which no list
has one twice:

* `Arguments.child?_eq_some`, `Arguments.value?_eq_some`: an argument is found under its name.
* `Arguments.fields?_spec`, `Arguments.payload?_spec`: what is made of the arguments that are found.
* `Node.make_fills_slots` is the statement on the node. Nodes that are created with a payload and fields are no others
  (`Node.create_eq_make`).
-/

namespace SharedTree

variable {α η : Type}

/-! ### Reading by name -/

/-- A value that is held under an attribute. -/
inductive Payload.Holds : {as : List Attribute} → Payload as → (a : Attribute) → Datum a.sort → Prop
  | head {a : Attribute} {as : List Attribute} (d : Datum a.sort) (rest : Payload as) : Holds (.cons d rest) a d
  | tail {a b : Attribute} {as : List Attribute} {d : Datum a.sort} {rest : Payload as} (e : Datum b.sort)
      (h : Holds rest a d) : Holds (.cons e rest) a d

/-- Every slot holds something. -/
theorem Fields.exists_holds {ρ : Type} {ss : List Slot} (fs : Fields α ρ ss) {s : Slot} (h : s ∈ ss) :
    ∃ c, fs.Holds s c := by
  induction fs with
  | nil => exact absurd h List.not_mem_nil
  | cons c rest ih =>
    rcases List.mem_cons.mp h with rfl | h
    · exact ⟨c, .head c rest⟩
    · obtain ⟨d, held⟩ := ih h
      exact ⟨d, .tail c held⟩

/-- A name has one child. -/
theorem Fields.Holds.unique {ρ : Type} {arity : Arity} {name label label' : String} {ss : List Slot}
    {fs : Fields α ρ ss} {c d : Child α ρ arity} (h : fs.Holds ⟨name, arity, label⟩ c)
    (h' : fs.Holds ⟨name, arity, label'⟩ d) (distinct : (ss.map Slot.name).Nodup) : c = d := by
  induction fs with
  | nil => cases h
  | cons e rest ih =>
    obtain ⟨fresh, distinct⟩ := List.nodup_cons.mp distinct
    cases h with
    | head _ _ =>
      cases h' with
      | head _ _ => rfl
      | tail _ h' => exact absurd (List.mem_map_of_mem h'.mem) fresh
    | tail _ h =>
      cases h' with
      | head _ _ => exact absurd (List.mem_map_of_mem h.mem) fresh
      | tail _ h' => exact ih h h' distinct

/-- No two attributes of a kind have the same name. -/
private theorem Kind.attributes_nodup (k : Kind) : (k.attributes.map Attribute.name).Nodup := by
  cases k <;> decide

/-! ### Finding arguments -/

/-- The key of the slot that a parameter is for. -/
def Parameter.child? : Parameter → Option (Arity × String)
  | .value _ _ => none
  | .child arity name => some (arity, name)

/-- The attribute that a parameter is for. -/
def Parameter.value? : Parameter → Option Attribute
  | .value name sort => some ⟨name, sort⟩
  | .child _ _ => none

/-- What is asked for as a child is what the slots are for, in the same order. -/
theorem Kind.child?_parameters (k : Kind) : k.parameters.filterMap Parameter.child? = k.slots.map Slot.key := by
  cases k <;> rfl

/-- What is asked for as a value are the attributes, in the same order. -/
theorem Kind.value?_parameters (k : Kind) : k.parameters.filterMap Parameter.value? = k.attributes := by
  cases k <;> rfl

namespace Arguments

variable {ps : List Parameter} {arity : Arity} {name : String} {sort : ValueSort}

/-- An argument is among others. -/
inductive Has : {ps : List Parameter} → Arguments ps → {p : Parameter} → Argument p → Prop
  | head {p : Parameter} {ps : List Parameter} (a : Argument p) (rest : Arguments ps) : Has (.cons a rest) a
  | tail {p q : Parameter} {ps : List Parameter} {a : Argument p} {rest : Arguments ps} (b : Argument q)
      (h : Has rest a) : Has (.cons b rest) a

private theorem Has.mem {args : Arguments ps} {p : Parameter} {a : Argument p} (h : args.Has a) : p ∈ ps := by
  induction h with
  | head a rest => exact List.mem_cons_self
  | tail b _ ih => exact List.mem_cons_of_mem _ ih

private theorem exists_has (args : Arguments ps) {p : Parameter} (h : p ∈ ps) : ∃ a : Argument p, args.Has a := by
  induction args with
  | nil => exact absurd h List.not_mem_nil
  | cons a rest ih =>
    rcases List.mem_cons.mp h with rfl | h
    · exact ⟨a, .head a rest⟩
    · obtain ⟨b, held⟩ := ih h
      exact ⟨b, .tail a held⟩

/-- Arguments can be put together that each fit. -/
private theorem exists_all {fits : {p : Parameter} → Argument p → Prop} (h : ∀ p ∈ ps, ∃ a : Argument p, fits a) :
    ∃ args : Arguments ps, ∀ p (a : Argument p), args.Has a → fits a := by
  induction ps with
  | nil => exact ⟨.nil, nofun⟩
  | cons p ps ih =>
    obtain ⟨a, ha⟩ := h p List.mem_cons_self
    obtain ⟨args, hargs⟩ := ih fun q hq => h q (List.mem_cons_of_mem p hq)
    refine ⟨.cons a args, fun q b held => ?_⟩
    cases held with
    | head _ _ => exact ha
    | tail _ held => exact hargs q b held

/-- What is found is among the arguments. -/
private theorem has_of_child? {args : Arguments ps} {g : Given arity} (h : args.child? arity name = some g) :
    args.Has (.child g : Argument (.child arity name)) := by
  induction args with
  | nil => exact absurd h nofun
  | cons a rest ih =>
    cases a with
    | value d => exact .tail _ (ih h)
    | @child arity' name' g' =>
      by_cases same : name' = name ∧ arity' = arity
      · obtain ⟨rfl, rfl⟩ := same
        rw [child?, dif_pos ⟨rfl, rfl⟩] at h
        cases h
        exact .head _ rest
      · rw [child?, dif_neg same] at h
        exact .tail _ (ih h)

/-- An argument for a child is found, if no other parameter has its name. -/
theorem child?_eq_some {args : Arguments ps} {g : Given arity}
    (distinct : ((ps.filterMap Parameter.child?).map Prod.snd).Nodup)
    (h : args.Has (.child g : Argument (.child arity name))) : args.child? arity name = some g := by
  induction args with
  | nil => cases h
  | @cons p ps a rest ih =>
    cases h with
    | head _ _ => rw [child?, dif_pos ⟨rfl, rfl⟩]
    | tail _ held =>
      cases a with
      | value d => exact ih distinct held
      | @child arity' name' g' =>
        obtain ⟨fresh, distinct⟩ := List.nodup_cons.mp distinct
        have other : ¬(name' = name ∧ arity' = arity) := by
          rintro ⟨rfl, rfl⟩
          exact fresh (List.mem_map_of_mem (List.mem_filterMap.mpr ⟨_, held.mem, rfl⟩))
        rw [child?, dif_neg other]
        exact ih distinct held

private theorem has_of_value? {args : Arguments ps} {d : Datum sort} (h : args.value? name sort = some d) :
    args.Has (.value d : Argument (.value name sort)) := by
  induction args with
  | nil => exact absurd h nofun
  | cons a rest ih =>
    cases a with
    | child g => exact .tail _ (ih h)
    | @value name' sort' d' =>
      by_cases same : name' = name ∧ sort' = sort
      · obtain ⟨rfl, rfl⟩ := same
        rw [value?, dif_pos ⟨rfl, rfl⟩] at h
        cases h
        exact .head _ rest
      · rw [value?, dif_neg same] at h
        exact .tail _ (ih h)

/-- A value is found, if no other parameter has its name. -/
theorem value?_eq_some {args : Arguments ps} {d : Datum sort}
    (distinct : ((ps.filterMap Parameter.value?).map Attribute.name).Nodup)
    (h : args.Has (.value d : Argument (.value name sort))) : args.value? name sort = some d := by
  induction args with
  | nil => cases h
  | @cons p ps a rest ih =>
    cases h with
    | head _ _ => rw [value?, dif_pos ⟨rfl, rfl⟩]
    | tail _ held =>
      cases a with
      | child g => exact ih distinct held
      | @value name' sort' d' =>
        obtain ⟨fresh, distinct⟩ := List.nodup_cons.mp distinct
        have other : ¬(name' = name ∧ sort' = sort) := by
          rintro ⟨rfl, rfl⟩
          exact fresh (List.mem_map_of_mem (List.mem_filterMap.mpr ⟨_, held.mem, rfl⟩))
        rw [value?, dif_neg other]
        exact ih distinct held

/-- What is given under a key, as a list of nodes. -/
def read (args : Arguments ps) (key : Arity × String) : List SharedNode := (args.child? key.1 key.2).elim [] Given.nodes

/-- What is read key by key are all nodes that are given. -/
private theorem read_all (args : Arguments ps) (distinct : ((ps.filterMap Parameter.child?).map Prod.snd).Nodup) :
    (ps.filterMap Parameter.child?).flatMap args.read = args.nodes := by
  induction args with
  | nil => rfl
  | @cons p ps a rest ih =>
    cases a with
    | value d => exact ih distinct
    | @child arity name g =>
      obtain ⟨fresh, distinct⟩ := List.nodup_cons.mp distinct
      have here : (Arguments.cons (.child g : Argument (.child arity name)) rest).read (arity, name) = g.nodes := by
        rw [read, child?, dif_pos ⟨rfl, rfl⟩]
        rfl
      have others : ∀ key ∈ ps.filterMap Parameter.child?,
          (Arguments.cons (.child g : Argument (.child arity name)) rest).read key = rest.read key := by
        intro key hk
        have other : ¬(name = key.2 ∧ arity = key.1) :=
          fun same => fresh (List.mem_map.mpr ⟨key, hk, same.1.symm⟩)
        rw [read, child?, dif_neg other, read]
      have keys : (Parameter.child arity name :: ps).filterMap Parameter.child? =
          (arity, name) :: ps.filterMap Parameter.child? := rfl
      rw [keys, List.flatMap_cons, here, List.flatMap_congr others, ih distinct, nodes]

end Arguments

/-! ### What is made of arguments -/

/-- What becomes of what is given for a child: the node or row itself, or a row of the given elements with an empty span
and one of the new handles. -/
inductive Given.Becomes (new : List Handle) : {a : Arity} → Given a → Child SharedNode SharedRow a → Prop
  | one (n : SharedNode) : Becomes new (.one n) (.one n)
  | opt (n : Option SharedNode) : Becomes new (.opt n) (.opt n)
  | row (r : SharedRow) : Becomes new (.row r) (.row r)
  | items (ns : List SharedNode) {h : Handle} (mem : h ∈ new) : Becomes new (.items ns) (.row ⟨h, ⟨0, 0⟩, ns⟩)
  | optRow (r : Option SharedRow) : Becomes new (.optRow r) (.optRow r)

namespace Given

variable {a : Arity} {g : Given a} {c : Child SharedNode SharedRow a} {new new' : List Handle}

private theorem Becomes.mono (h : g.Becomes new c) (more : new ⊆ new') : g.Becomes new' c := by
  cases h with
  | one n => exact .one n
  | opt n => exact .opt n
  | row r => exact .row r
  | items ns mem => exact .items ns (more mem)
  | optRow r => exact .optRow r

private theorem Becomes.nodes_eq (h : g.Becomes new c) : c.nodes = g.nodes := by
  cases h with
  | optRow r => cases r <;> rfl
  | _ => rfl

/-- What is given for a child is settled with at most one new row. -/
private theorem settle_spec (g : Given a) (s : Supply) :
    ∃ c t new, g.settle s = (c, t) ∧ s.Yields t [] new ∧ g.Becomes new c := by
  cases g with
  | one n => exact ⟨_, s, [], rfl, .nil s, .one n⟩
  | opt n => exact ⟨_, s, [], rfl, .nil s, .opt n⟩
  | row r => exact ⟨_, s, [], rfl, .nil s, .row r⟩
  | items ns =>
    exact ⟨_, { s with rows := s.rows + 1 }, [⟨s.region, s.rows⟩], rfl, ⟨rfl, .nil _ _, .single _ _⟩,
      .items ns List.mem_cons_self⟩
  | optRow r => exact ⟨_, s, [], rfl, .nil s, .optRow r⟩

end Given

namespace Arguments

variable {ps : List Parameter} {args : Arguments ps}

/-- If an argument is found for each attribute, the payload holds these. -/
theorem payload?_spec {as : List Attribute} (found : ∀ a ∈ as, ∃ d, args.value? a.name a.sort = some d) :
    ∃ p, args.payload? as = some p ∧ ∀ a d, p.Holds a d → args.value? a.name a.sort = some d := by
  induction as with
  | nil => exact ⟨.nil, rfl, nofun⟩
  | cons a as ih =>
    obtain ⟨d, hd⟩ := found a List.mem_cons_self
    obtain ⟨p, hp, held⟩ := ih fun b hb => found b (List.mem_cons_of_mem a hb)
    refine ⟨.cons d p, ?_, fun b e h => ?_⟩
    · rw [payload?, hd, hp]
      rfl
    · cases h with
      | head _ _ => exact hd
      | tail _ h => exact held b e h

/-- If an argument is found for each slot, the slots hold what becomes of these. -/
theorem fields?_spec {ss : List Slot} (found : ∀ s ∈ ss, ∃ g, args.child? s.arity s.name = some g) (s : Supply) :
    ∃ fs t new, args.fields? ss s = (some fs, t) ∧ s.Yields t [] new ∧
      (∀ r c, fs.Holds r c → ∃ g, args.child? r.arity r.name = some g ∧ g.Becomes new c) ∧
      fs.nodes = (ss.map Slot.key).flatMap args.read := by
  induction ss generalizing s with
  | nil => exact ⟨.nil, s, [], rfl, .nil s, nofun, rfl⟩
  | cons r ss ih =>
    obtain ⟨g, hg⟩ := found r List.mem_cons_self
    obtain ⟨c, t, new, settled, drawn, becomes⟩ := g.settle_spec s
    obtain ⟨fs, u, new', filled, drawn', held, nodes⟩ := ih (fun q hq => found q (List.mem_cons_of_mem r hq)) t
    refine ⟨.cons c fs, u, new ++ new', ?_, drawn.append drawn', fun q d h => ?_, ?_⟩
    · rw [fields?, hg]
      exact (build_bind settled).trans (build_bind filled)
    · cases h with
      | head _ _ => exact ⟨g, hg, becomes.mono (List.subset_append_left _ _)⟩
      | tail _ h =>
        obtain ⟨g', hg', becomes'⟩ := held q d h
        exact ⟨g', hg', becomes'.mono (List.subset_append_right _ _)⟩
    · have head : args.read r.key = g.nodes := congrArg (Option.elim · [] Given.nodes) hg
      rw [Fields.nodes, nodes, becomes.nodes_eq, List.map_cons, List.flatMap_cons, head]

end Arguments

/-! ### Texts -/

/-- The kinds whose nodes have a text: the literals and identifiers. -/
def Kind.HasText (k : Kind) : Prop := k.isLiteral = true ∨ k = .identifier

private theorem Kind.attributes_of_hasText {k : Kind} (h : k.HasText) : k.attributes = [⟨"text", .text⟩] := by
  rcases h with h | rfl
  · cases k <;> first | rfl | cases h
  · rfl

private theorem Kind.hasText_of_attribute {k : Kind} (h : "text" ∈ k.attributes.map Attribute.name) : k.HasText := by
  have all : "text" ∈ k.attributes.map Attribute.name → k.isLiteral = true ∨ k = .identifier := by
    cases k <;> decide
  exact all h

namespace Payload

private theorem exists_holds {as : List Attribute} (p : Payload as) {a : Attribute} (h : a ∈ as) :
    ∃ d, p.Holds a d := by
  induction p with
  | nil => exact absurd h List.not_mem_nil
  | cons d rest ih =>
    rcases List.mem_cons.mp h with rfl | h
    · exact ⟨d, .head d rest⟩
    · obtain ⟨e, held⟩ := ih h
      exact ⟨e, .tail d held⟩

private theorem Holds.mem {as : List Attribute} {p : Payload as} {a : Attribute} {d : Datum a.sort} (h : p.Holds a d) :
    a ∈ as := by
  induction h with
  | head d rest => exact List.mem_cons_self
  | tail e _ ih => exact List.mem_cons_of_mem _ ih

/-- A name has one value. -/
private theorem Holds.unique {as : List Attribute} {p : Payload as} {a : Attribute} {d e : Datum a.sort}
    (h : p.Holds a d) (h' : p.Holds a e) (distinct : (as.map Attribute.name).Nodup) : d = e := by
  induction p with
  | nil => cases h
  | cons f rest ih =>
    obtain ⟨fresh, distinct⟩ := List.nodup_cons.mp distinct
    cases h with
    | head _ _ =>
      cases h' with
      | head _ _ => rfl
      | tail _ h' => exact absurd (List.mem_map_of_mem h'.mem) fresh
    | tail _ h =>
      cases h' with
      | head _ _ => exact absurd (List.mem_map_of_mem h.mem) fresh
      | tail _ h' => exact ih h h' distinct

private theorem mem_of_text? {name text : String} {as : List Attribute} {p : Payload as}
    (h : p.text? name = some text) : name ∈ as.map Attribute.name := by
  induction p with
  | nil => exact absurd h nofun
  | @cons a as d rest ih =>
    by_cases same : a.name = name
    · exact same ▸ List.mem_cons_self
    · rw [text?, if_neg same] at h
      exact List.mem_cons_of_mem _ (ih h)

/-- The text of a payload of one text is what is held under its name. -/
private theorem text?_iff {as : List Attribute} {p : Payload as} {name text : String} (single : as = [⟨name, .text⟩]) :
    p.text? name = some text ↔ p.Holds ⟨name, .text⟩ (.text text) := by
  subst single
  cases p with
  | cons d rest =>
    cases d with
    | text held =>
      have this : (Payload.cons (a := ⟨name, .text⟩) (.text held) rest).text? name = some held := if_pos rfl
      rw [this]
      constructor
      · rintro ⟨rfl⟩
        exact .head _ rest
      · intro h
        cases h with
        | head => rfl
        | tail _ h => cases rest; cases h

end Payload

/-- A node has a text exactly when its kind has, and it is what the node holds under that name. -/
theorem Node.text_iff (n : Node η) (text : String) :
    n.text = some text ↔ n.kind.HasText ∧ n.payload.Holds ⟨"text", .text⟩ (.text text) := by
  constructor
  · intro h
    have kind := Kind.hasText_of_attribute (Payload.mem_of_text? h)
    exact ⟨kind, (Payload.text?_iff (Kind.attributes_of_hasText kind)).mp h⟩
  · rintro ⟨kind, held⟩
    exact (Payload.text?_iff (Kind.attributes_of_hasText kind)).mpr held

/-- A node has a text exactly when its kind has. -/
theorem Node.isSome_text (n : Node η) : n.text.isSome = true ↔ n.kind.HasText := by
  constructor
  · intro h
    obtain ⟨text, h⟩ := Option.isSome_iff_exists.mp h
    exact ((n.text_iff text).mp h).1
  · intro kind
    have listed : (⟨"text", .text⟩ : Attribute) ∈ n.kind.attributes := by
      rw [Kind.attributes_of_hasText kind]
      exact List.mem_cons_self
    obtain ⟨d, held⟩ := n.payload.exists_holds listed
    cases d with
    | text text => exact Option.isSome_iff_exists.mpr ⟨text, (n.text_iff text).mpr ⟨kind, held⟩⟩

/-! ### The node -/

/-- What is known of a node that is made of arguments between two states of a supply. -/
structure Node.MadeOf (n : SharedNode) (k : Kind) (args : Arguments k.parameters) (span : Option Span)
    (flags : Option Flags) (s t : Supply) : Prop where
  kind : n.kind = k
  span : n.span = span.getD ⟨0, 0⟩
  flags : n.flags = flags.getD ⟨0⟩
  /-- The node is new, as are the rows of elements that were given, and each slot holds what was given for it. -/
  slots : ∃ new, s.Yields t [n.handle] new ∧
    (∀ slot c, n.fields.Holds slot c →
      ∃ g, args.Has (.child g : Argument (.child slot.arity slot.name)) ∧ g.Becomes new c) ∧
    ∀ arity name g, args.Has (.child g : Argument (.child arity name)) →
      ∃ label c, n.fields.Holds ⟨name, arity, label⟩ c ∧ g.Becomes new c
  /-- Each value that was given is held under its name. -/
  values : ∀ name sort d, args.Has (.value d : Argument (.value name sort)) → n.payload.Holds ⟨name, sort⟩ d
  /-- The children are the nodes among the arguments, in the order of the arguments. -/
  children : n.children = args.nodes
  listed : n.listed = args.nodes
  /-- Literals and identifiers have the text that was given, other nodes have none. -/
  text : ∀ text, n.text = some text ↔
    k.HasText ∧ args.Has (.value (.text text) : Argument (.value "text" .text))
  hasText : n.text.isSome = true ↔ k.HasText

section Make

variable {k : Kind} {args : Arguments k.parameters}

private theorem Kind.keys_nodup (k : Kind) : ((k.parameters.filterMap Parameter.child?).map Prod.snd).Nodup := by
  rw [k.child?_parameters, List.map_map]
  exact k.slots_nodup

private theorem Kind.values_nodup (k : Kind) :
    ((k.parameters.filterMap Parameter.value?).map Attribute.name).Nodup := by
  rw [k.value?_parameters]
  exact k.attributes_nodup

/-- For each attribute of the kind there is an argument. -/
private theorem exists_value (args : Arguments k.parameters) {a : Attribute} (h : a ∈ k.attributes) :
    ∃ d, args.value? a.name a.sort = some d := by
  rw [← k.value?_parameters] at h
  obtain ⟨p, mem, hp⟩ := List.mem_filterMap.mp h
  cases p with
  | child => cases hp
  | value name sort =>
    obtain rfl := Option.some.inj hp
    obtain ⟨⟨d⟩, held⟩ := args.exists_has mem
    exact ⟨d, Arguments.value?_eq_some k.values_nodup held⟩

/-- For each slot of the kind there is an argument. -/
private theorem exists_child (args : Arguments k.parameters) {s : Slot} (h : s ∈ k.slots) :
    ∃ g, args.child? s.arity s.name = some g := by
  have key : s.key ∈ k.parameters.filterMap Parameter.child? := by
    rw [k.child?_parameters]
    exact List.mem_map_of_mem h
  obtain ⟨p, mem, hp⟩ := List.mem_filterMap.mp key
  cases p with
  | value => cases hp
  | child arity name =>
    obtain ⟨rfl, rfl⟩ := Prod.mk.inj (Option.some.inj hp)
    obtain ⟨a, held⟩ := args.exists_has mem
    cases a with
    | child g => exact ⟨g, Arguments.child?_eq_some k.keys_nodup held⟩

/-- For each parameter for a value there is an attribute. -/
private theorem attribute_of_mem {name : String} {sort : ValueSort} (h : .value name sort ∈ k.parameters) :
    ⟨name, sort⟩ ∈ k.attributes := by
  rw [← k.value?_parameters]
  exact List.mem_filterMap.mpr ⟨_, h, rfl⟩

/-- For each parameter for a child there is a slot. -/
private theorem slot_of_mem {arity : Arity} {name : String} (h : .child arity name ∈ k.parameters) :
    ∃ label, ⟨name, arity, label⟩ ∈ k.slots := by
  have key : (arity, name) ∈ k.slots.map Slot.key := by
    rw [← k.child?_parameters]
    exact List.mem_filterMap.mpr ⟨_, h, rfl⟩
  obtain ⟨⟨name', arity', label⟩, mem, same⟩ := List.mem_map.mp key
  obtain ⟨rfl, rfl⟩ := Prod.mk.inj same
  exact ⟨label, mem⟩

end Make

/-- Whatever the kind and the arguments, a node is made of them: a new node with each argument in its place. -/
theorem Node.make_fills_slots (k : Kind) (args : Arguments k.parameters) (span : Option Span) (flags : Option Flags)
    (s : Supply) : ∃ n t, Node.make k args span flags s = (some n, t) ∧ n.MadeOf k args span flags s t := by
  obtain ⟨payload, hp, values⟩ := Arguments.payload?_spec fun a ha => exists_value args ha
  obtain ⟨fs, t, new, filled, drawn, held, nodes⟩ := Arguments.fields?_spec (fun r hr => exists_child args hr) s
  have children : fs.nodes = args.nodes := by
    rw [nodes, ← k.child?_parameters, args.read_all k.keys_nodup]
  let n : SharedNode := .mk ⟨t.region, t.nodes⟩ (span.getD {}) (flags.getD {}) k payload fs
  have node : t.Yields { t with nodes := t.nodes + 1 } [n.handle] [] := ⟨rfl, .single _ _, .nil _ _⟩
  have yields := drawn.append node
  rw [List.append_nil] at yields
  have payloadOf (name : String) (sort : ValueSort) (d : Datum sort)
      (h : args.Has (.value d : Argument (.value name sort))) : payload.Holds ⟨name, sort⟩ d := by
    obtain ⟨e, he⟩ := payload.exists_holds (attribute_of_mem h.mem)
    have same := (values _ _ he).symm.trans (Arguments.value?_eq_some k.values_nodup h)
    rwa [Option.some.inj same] at he
  refine ⟨n, _, ?_, rfl, rfl, rfl, ⟨new, yields, ?_, ?_⟩, payloadOf, children, n.listed_eq.trans children, ?_,
    n.isSome_text⟩
  · unfold make
    rw [hp]
    exact build_bind filled
  · intro slot c h
    obtain ⟨g, hg, becomes⟩ := held slot c h
    exact ⟨g, Arguments.has_of_child? hg, becomes⟩
  · intro arity name g h
    obtain ⟨label, mem⟩ := slot_of_mem h.mem
    obtain ⟨c, hc⟩ := fs.exists_holds mem
    obtain ⟨g', hg', becomes⟩ := held _ c hc
    obtain rfl := Option.some.inj (hg'.symm.trans (Arguments.child?_eq_some k.keys_nodup h))
    exact ⟨label, c, hc, becomes⟩
  · intro text
    rw [n.text_iff text]
    exact and_congr_right fun _ =>
      ⟨fun held => Arguments.has_of_value? (values _ _ held), fun h => payloadOf _ _ _ h⟩

/-- There is one such function for each of the kinds. -/
example : Kind.all.length = 93 := rfl

/-- The operator of a binary expression is asked for between the operands. -/
example : (Node.make .binaryExpression (.cons (.child (.one (Sample.leaf ⟨0, 0⟩)))
    (.cons (.value (.token .plus)) (.cons (.child (.one Sample.twig)) .nil))) none none ⟨0, 2, 0⟩).1.map Node.listed =
      some [Sample.leaf ⟨0, 0⟩, Sample.twig] := rfl

/-! ### Nodes that are created -/

/-- What is given for a child that there is. -/
def Given.of : {a : Arity} → Child SharedNode SharedRow a → Given a
  | _, .one n => .one n
  | _, .opt n => .opt n
  | _, .row r => .row r
  | _, .optRow r => .optRow r

private theorem Given.settle_of {a : Arity} (c : Child SharedNode SharedRow a) : (Given.of c).settle = pure c := by
  cases c <;> rfl

/-- An argument is what is held under the name of its parameter. -/
def Argument.From {as : List Attribute} {ss : List Slot} (payload : Payload as)
    (fields : Fields SharedNode SharedRow ss) : {p : Parameter} → Argument p → Prop
  | .value name sort, .value d => payload.Holds ⟨name, sort⟩ d
  | .child arity name, .child g => ∃ label c, fields.Holds ⟨name, arity, label⟩ c ∧ g = .of c

namespace Arguments

variable {ps : List Parameter} {args : Arguments ps}

private theorem payload?_of_holds {as : List Attribute} {payload : Payload as}
    (h : ∀ a d, payload.Holds a d → args.value? a.name a.sort = some d) : args.payload? as = some payload := by
  induction payload with
  | nil => rfl
  | @cons a as d rest ih =>
    rw [payload?, h a d (.head d rest), ih fun b e held => h b e (.tail d held)]
    rfl

private theorem fields?_of_holds {ss : List Slot} {fields : Fields SharedNode SharedRow ss}
    (h : ∀ s c, fields.Holds s c → args.child? s.arity s.name = some (.of c)) :
    args.fields? ss = pure (some fields) := by
  induction fields with
  | nil => rfl
  | @cons s ss c rest ih =>
    have others : args.fields? ss = pure (some rest) := ih fun r d held => h r d (.tail c held)
    rw [fields?, h s c (.head c rest)]
    show (Given.of c).settle >>= _ = _
    rw [Given.settle_of, pure_bind, others]
    rfl

end Arguments

/-- Each node that is created with a payload and fields is made of arguments, namely of what they hold. -/
theorem Node.create_eq_make (k : Kind) (payload : Payload k.attributes) (fields : Fields SharedNode SharedRow k.slots) :
    ∃ args : Arguments k.parameters, (∀ p (a : Argument p), args.Has a → a.From payload fields) ∧
      ∀ span flags, Node.make k args (some span) (some flags) =
        some <$> Node.create k payload fields span flags := by
  have each : ∀ p ∈ k.parameters, ∃ a : Argument p, a.From payload fields := by
    intro p hp
    cases p with
    | value name sort =>
      obtain ⟨d, held⟩ := payload.exists_holds (attribute_of_mem hp)
      exact ⟨.value d, held⟩
    | child arity name =>
      obtain ⟨label, mem⟩ := slot_of_mem hp
      obtain ⟨c, held⟩ := fields.exists_holds mem
      exact ⟨.child (.of c), label, c, held, rfl⟩
  obtain ⟨args, from_held⟩ := Arguments.exists_all each
  have values : args.payload? k.attributes = some payload := Arguments.payload?_of_holds fun a d held => by
    obtain ⟨e, found⟩ := exists_value args held.mem
    have held' : payload.Holds a e := from_held _ _ (Arguments.has_of_value? found)
    rw [found, held.unique held' k.attributes_nodup]
  have children : args.fields? k.slots = pure (some fields) := Arguments.fields?_of_holds fun s c held => by
    obtain ⟨g, found⟩ := exists_child args held.mem
    obtain ⟨label, d, held', same⟩ := from_held _ _ (Arguments.has_of_child? found)
    rw [found, same, held.unique held' k.slots_nodup]
  refine ⟨args, from_held, fun span flags => ?_⟩
  unfold make
  rw [values, children]
  rfl

end SharedTree
