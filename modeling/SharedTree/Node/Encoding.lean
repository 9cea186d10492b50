import SharedTree.Json.Value
import SharedTree.Node.Basic

/-!
# Nodes as JSON

A node is a record of its span, its flags in their text form and its data. The data of a kind that
holds nothing is the name of the kind; otherwise it is a record with one member, from that name to
the attributes and slots in the order of the schema. All slots are written, empty ones as null.
Handles are not written.
-/

namespace SharedTree

variable {η : Type}

/-- Whether nodes of a kind hold nothing beside their span and flags. -/
def Kind.isBare (k : Kind) : Bool := k.attributes.isEmpty && k.slots.isEmpty

/-- A span as a record. -/
def Span.toJson (s : Span) : Json :=
  .record [("pos", .number s.pos.toNat), ("end", .number s.stop.toNat)]

/-- Flags as a text. -/
def Flags.toJson (f : Flags) : Json := .text (String.ofList f.spelling)

/-- A value of an attribute. -/
def Datum.toJson : {s : ValueSort} → Datum s → Json
  | _, .text s => .text s
  | _, .token t => .text t.name
  | _, .keyword k => .text k.name
  | _, .number n => .number n.toNat
  | _, .numbers ns => .list (ns.map fun n => .number n.toNat)

/-- The attributes as members. -/
def Payload.members : {as : List Attribute} → Payload as → List (String × Json)
  | _, .nil => []
  | _, @Payload.cons a _ d rest => (a.name, d.toJson) :: rest.members

/-- A row of values that are written already. -/
def Row.toJson (r : Row η Json) : Json :=
  .record [("loc", r.span.toJson), ("nodes", .list r.items)]

/-- A child whose nodes are written already. -/
def Child.toJson : {a : Arity} → Child Json (Row η Json) a → Json
  | _, .one j => j
  | _, .opt j => j.getD .null
  | _, .row r => r.toJson
  | _, .optRow r => (r.map Row.toJson).getD .null

/-- The slots as members. -/
def Fields.members : {ss : List Slot} → Fields Json (Row η Json) ss → List (String × Json)
  | _, .nil => []
  | _, @Fields.cons _ _ s _ c rest => (s.name, c.toJson) :: rest.members

/-- The data of a node whose children are written already. -/
def Kind.dataToJson (k : Kind) (payload : Payload k.attributes)
    (fields : Fields Json (Row η Json) k.slots) : Json :=
  if k.isBare then .text k.name
  else .record [(k.name, .record (payload.members ++ fields.members))]

namespace Node

/-- A node as a JSON value. -/
def toJson : Node η → Json :=
  fold fun _ span flags k payload fields =>
    .record [("loc", span.toJson), ("flags", flags.toJson), ("data", k.dataToJson payload fields)]

/-- The text of a node, with one element to a line. -/
def toText (n : Node η) : String := n.toJson.toText .indented

end Node

end SharedTree
