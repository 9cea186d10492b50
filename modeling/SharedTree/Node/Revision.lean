import SharedTree.Handle
import SharedTree.Node.View
import SharedTree.Text.Integer

/-!
# Revised nodes

New nodes that differ from a given node in little: the same node under another handle, a node with
another text, and literals for the results of arithmetic.
-/

namespace SharedTree

/-- The payload with `f` applied to the text under a given name. -/
def Payload.mapText (name : String) (f : String → String) :
    {as : List Attribute} → Payload as → Payload as
  | _, .nil => .nil
  | _, @Payload.cons a _ d rest =>
    if a.name = name then
      match a, d with
      | ⟨_, .text⟩, .text s => .cons (.text (f s)) rest
      | _, d => .cons d rest
    else .cons d (rest.mapText name f)

/-- The token that a value is, if it is one. -/
def Datum.token? : {s : ValueSort} → Datum s → Option Token
  | _, .token t => some t
  | _, _ => none

/-- The first token among the values of a payload. -/
def Payload.token? : {as : List Attribute} → Payload as → Option Token
  | _, .nil => none
  | _, .cons d rest => d.token?.or rest.token?

namespace Node

/-- A new node that holds the same. -/
def copy (n : SharedNode) : Build SharedNode := create n.kind n.payload n.fields n.span n.flags

/-- A new node with a text that continues that of the given node. -/
def retext (n : SharedNode) (suffix : String) : Build SharedNode :=
  create n.kind (n.payload.mapText "text" (· ++ suffix)) n.fields n.span n.flags

/-- A new numeric literal in the place of a node. -/
def literalLike (n : SharedNode) (text : String) : Build SharedNode :=
  create .numericLiteral (.cons (.text text) .nil) .nil n.span n.flags

/-- The number of 32 bits that a numeric literal stands for. -/
def word? (n : SharedNode) : Option Nat := do
  let value ← Text.natural? (← n.text).toList
  guard (value < UInt32.size)
  return value

/-- The range of 64-bit integers with a sign. -/
private def inRange (i : Int) : Bool := -0x8000000000000000 ≤ i && i < 0x8000000000000000

/-- The integer of 64 bits that the text of a node stands for. -/
def integer? (n : SharedNode) : Option Int := do
  let value ← Text.integer? (← n.text).toList
  guard (inRange value)
  return value

/-- The sum of two integers that a node stands for, within 64 bits. -/
def sum? (n : SharedNode) : Option Int := do
  guard (n.kind = .binaryExpression && n.payload.token? = some .plus)
  let left ← (← n.node? "left").integer?
  let right ← (← n.node? "right").integer?
  guard (inRange (left + right))
  return left + right

end Node

end SharedTree
