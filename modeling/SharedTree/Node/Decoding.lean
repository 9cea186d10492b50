import SharedTree.Json.Reader
import SharedTree.Node.Encoding
import SharedTree.Node.Shape

/-!
# Nodes from JSON

Reading a node yields its shape, which holds no handles. The attributes and slots of the data may
stand in any order; slots that may be empty may be left out. Every list and record that is read on
the way down takes one level from the budget of nesting.
-/

namespace SharedTree

open Json

/-! ### Parts without nodes -/

/-- Reads a span. -/
def Span.read (mayOpen : Bool) (d : Draft) : Reading Span := do
  unless mayOpen do throw d.unopened
  let (pos, stop) ← d.readStructure ["pos", "end"] (some .mismatched) take (none, none)
  return ⟨← Draft.required pos, ← Draft.required stop⟩
where
  take (name : String) (d : Draft) : Option UInt32 × Option UInt32 →
      Reading (Option UInt32 × Option UInt32)
    | (pos, stop) =>
      if name = "pos" then do return (← Draft.takeOnce pos d.readNumber, stop)
      else do return (pos, ← Draft.takeOnce stop d.readNumber)

/-- Reads flags in their text form. -/
def Flags.read (d : Draft) : Reading Flags := do
  match Flags.ofSpelling? (← d.readText).toList with
  | some f => return f
  | none => throw .mismatched

/-- Reads a value of a sort. -/
def Datum.read (mayOpen : Bool) (d : Draft) : (s : ValueSort) → Reading (Datum s)
  | .text => d.readText.map .text
  | .token => (d.readName Token.ofName? mayOpen).map .token
  | .keyword => (d.readName TypeKeyword.ofName? mayOpen).map .keyword
  | .number => d.readNumber.map .number
  | .numbers => (d.readNumbers mayOpen).map .numbers

/-! ### Data that is being read -/

/-- The values read so far for the entries of a list. -/
inductive Pending {ι : Type} (F : ι → Type) : List ι → Type where
  | nil : Pending F []
  | cons {i : ι} {is : List ι} (x : Option (F i)) (rest : Pending F is) : Pending F (i :: is)

namespace Pending

variable {ι : Type} {F : ι → Type}

/-- Nothing is read yet. -/
def empty : (is : List ι) → Pending F is
  | [] => .nil
  | _ :: is => .cons none (empty is)

/-- Reads the value of the entry of a given name. -/
def take (nameOf : ι → String) (name : String) (read : (i : ι) → Reading (F i)) :
    {is : List ι} → Pending F is → Reading (Pending F is)
  | _, .nil => .ok .nil
  | _, @Pending.cons _ _ i _ x rest =>
    if nameOf i = name then (Draft.takeOnce x (read i)).map (.cons · rest)
    else (take nameOf name read rest).map (.cons x)

end Pending

/-- The attributes that are being read. -/
abbrev PendingPayload (as : List Attribute) : Type := Pending (fun a => Datum a.sort) as

/-- The slots that are being read. -/
abbrev PendingFields (ss : List Slot) : Type :=
  Pending (fun s => Child Shape (Row Unit Shape) s.arity) ss

/-- The attributes, all of which must have been read. -/
def PendingPayload.complete : {as : List Attribute} → PendingPayload as → Reading (Payload as)
  | _, .nil => .ok .nil
  | _, .cons x rest => do return .cons (← Draft.required x) (← complete rest)

/-- What a slot holds that was not filled. -/
def Child.absent? {α ρ : Type} : (a : Arity) → Option (Child α ρ a)
  | .opt => some (.opt none)
  | .optRow => some (.optRow none)
  | .one | .row => none

/-- The slots. Those that may be empty need not have been read. -/
def PendingFields.complete : {ss : List Slot} → PendingFields ss →
    Reading (Fields Shape (Row Unit Shape) ss)
  | _, .nil => .ok .nil
  | _, @Pending.cons _ _ s _ x rest => do
    return .cons (← Draft.required (x.or (Child.absent? s.arity))) (← complete rest)

/-- What a node holds beside its span and flags. -/
structure Content where
  kind : Kind
  payload : Payload kind.attributes
  fields : Fields Shape (Row Unit Shape) kind.slots

/-- A shape from its parts. -/
def Content.shape (c : Content) (span : Span) (flags : Flags) : Shape :=
  .mk () span flags c.kind c.payload c.fields

/-- The attributes and slots of a kind that are being read. -/
structure PendingContent (k : Kind) where
  payload : PendingPayload k.attributes := .empty _
  fields : PendingFields k.slots := .empty _

namespace PendingContent

variable {k : Kind}

/-- The names of the attributes and slots of a kind. -/
def names (k : Kind) : List String := k.attributes.map (·.name) ++ k.slots.map (·.name)

/-- Reads the attribute or slot of a given name. -/
def take (mayOpen : Bool)
    (readChild : (a : Arity) → Draft → Reading (Child Shape (Row Unit Shape) a)) (name : String)
    (d : Draft) (c : PendingContent k) : Reading (PendingContent k) :=
  if (k.attributes.map (·.name)).contains name then do
    return { c with
      payload := ← c.payload.take Attribute.name name fun a => Datum.read mayOpen d a.sort }
  else do
    return { c with fields := ← c.fields.take Slot.name name fun s => readChild s.arity d }

/-- What was read, if nothing is missing. -/
def complete (c : PendingContent k) : Reading Content := do
  return ⟨k, ← c.payload.complete, ← c.fields.complete⟩

end PendingContent

/-! ### Nodes -/

/-- Reads what a slot holds, given how to read a node and a row. -/
def Child.read (node : Draft → Reading Shape) (row : Draft → Reading (Row Unit Shape)) :
    (a : Arity) → Draft → Reading (Child Shape (Row Unit Shape) a)
  | .one, d => (node d).map .one
  | .opt, d => (d.readOption node).map .opt
  | .row, d => (row d).map .row
  | .optRow, d => (d.readOption row).map .optRow

/-- The content of a kind that holds nothing. -/
def Content.bare (k : Kind) : Reading Content :=
  if k.isBare then PendingContent.complete (k := k) {} else .error .mismatched

mutual

/-- Reads a node with a budget of nesting. -/
def Shape.read : Nat → Draft → Reading Shape
  | 0, d => .error d.unopened
  | budget + 1, d => do
    let take (name : String) (d : Draft) : Option Span × Option Flags × Option Content →
        Reading (Option Span × Option Flags × Option Content)
      | (span, flags, content) =>
        if name = "loc" then do
          return (← Draft.takeOnce span (Span.read (budget != 0) d), flags, content)
        else if name = "flags" then do
          return (span, ← Draft.takeOnce flags (Flags.read d), content)
        else do
          return (span, flags, ← Draft.takeOnce content (readData budget d))
    let (span, flags, content) ←
      d.readStructure ["loc", "flags", "data"] (some .mismatched) take (none, none, none)
    let span ← Draft.required span
    let flags ← Draft.required flags
    return (← Draft.required content).shape span flags

/-- Reads the data of a node. -/
def readData : Nat → Draft → Reading Content
  | 0, d => d.readVariant Kind.ofName? Content.bare none
  | budget + 1, d => d.readVariant Kind.ofName? Content.bare (some (readContent budget))

/-- Reads the content of a kind. -/
def readContent : Nat → Kind → Draft → Reading Content
  | 0, k, d => if k.isBare then do d.readNull; Content.bare k else .error d.unopened
  | budget + 1, k, d =>
    if k.isBare then do d.readNull; Content.bare k
    else do
      let child := Child.read (Shape.read budget) (readRow budget)
      let content ← d.readStructure (PendingContent.names k) (some .mismatched)
        (PendingContent.take (k := k) (budget != 0) child) {}
      content.complete

/-- Reads a row of nodes. -/
def readRow : Nat → Draft → Reading (Row Unit Shape)
  | 0, d => .error d.unopened
  | budget + 1, d => do
    let take (name : String) (d : Draft) : Option Span × Option (List Shape) →
        Reading (Option Span × Option (List Shape))
      | (span, items) =>
        if name = "loc" then do
          return (← Draft.takeOnce span (Span.read (budget != 0) d), items)
        else do
          return (span, ← Draft.takeOnce items (readItems budget d))
    let (span, items) ← d.readStructure ["loc", "nodes"] (some .mismatched) take (none, none)
    let span ← Draft.required span
    return ⟨(), span, ← Draft.required items⟩

/-- Reads the elements of a row. -/
def readItems : Nat → Draft → Reading (List Shape)
  | 0, d => .error d.unopened
  | budget + 1, .list items broken => Draft.readItems (Shape.read budget) broken items
  | _ + 1, d => .error d.refusal

end

/-- The shape of the node that a text stands for. -/
def Shape.ofText (text : String) : Reading Shape :=
  (Document.ofChars text.toList).read (Shape.read nestingLimit)

/-- The flags that a JSON text stands for. -/
def Flags.ofText (text : String) : Reading Flags := (Document.ofChars text.toList).read Flags.read

/-- The span that a text stands for. -/
def Span.ofText (text : String) : Reading Span :=
  (Document.ofChars text.toList).read (Span.read true)

end SharedTree
