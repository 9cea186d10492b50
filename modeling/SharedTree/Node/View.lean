import SharedTree.Node.Basic

/-!
# Reading nodes

The text of a node, its slots by name, and the families of kinds that are looked at in the same
way.
-/

namespace SharedTree

variable {α ρ η : Type}

/-- The text that a value is, if it is one. -/
def Datum.text? : {s : ValueSort} → Datum s → Option String
  | _, .text t => some t
  | _, _ => none

/-- The text under a given name among the values of a payload. -/
def Payload.text? (name : String) : {as : List Attribute} → Payload as → Option String
  | _, .nil => none
  | _, @Payload.cons a _ d rest => if a.name = name then d.text? else rest.text? name

/-- The node that a child is, if it is one. -/
def Child.node? : {a : Arity} → Child α ρ a → Option α
  | _, .one n => some n
  | _, .opt n => n
  | _, _ => none

/-- The row that a child is, if it is one. -/
def Child.row? : {a : Arity} → Child α ρ a → Option ρ
  | _, .row r => some r
  | _, .optRow r => r
  | _, _ => none

/-- The node in a slot of a given name, if the slot is for one node and not empty. -/
def Fields.node? (name : String) : {ss : List Slot} → Fields α ρ ss → Option α
  | _, .nil => none
  | _, @Fields.cons _ _ s _ c rest => if s.name = name then c.node? else rest.node? name

/-- The row in a slot of a given name, if the slot is for a row and not empty. -/
def Fields.row? (name : String) : {ss : List Slot} → Fields α ρ ss → Option ρ
  | _, .nil => none
  | _, @Fields.cons _ _ s _ c rest => if s.name = name then c.row? else rest.row? name

/-- Kinds that are looked at in the same way. -/
inductive Family where
  | literal | identifier | token | qualifiedName | parameter | accessor | signature
  | bindingPattern | callExpression | wrappedExpression | unaryExpression | binaryExpression
  | conditionalExpression | functionExpression | arrowFunction | block | expressionStatement
  | ifStatement | jump | returnStatement | variableDeclaration | variableDeclarationList
  | functionDeclaration | sourceFile
deriving DecidableEq, Repr

namespace Family

/-- The families in the order in which they are listed. -/
def all : List Family := [
  .literal, .identifier, .token, .qualifiedName, .parameter, .accessor, .signature,
  .bindingPattern, .callExpression, .wrappedExpression, .unaryExpression, .binaryExpression,
  .conditionalExpression, .functionExpression, .arrowFunction, .block, .expressionStatement,
  .ifStatement, .jump, .returnStatement, .variableDeclaration, .variableDeclarationList,
  .functionDeclaration, .sourceFile]

/-- The kinds of a family. -/
def kinds : Family → List Kind
  | .literal => Kind.all.filter Kind.isLiteral
  | .identifier => [.identifier]
  | .token => [.token]
  | .qualifiedName => [.qualifiedName]
  | .parameter => [.parameter]
  | .accessor => [.getAccessor, .setAccessor]
  | .signature => [.callSignature, .constructSignature, .indexSignature]
  | .bindingPattern => [.objectBindingPattern, .arrayBindingPattern]
  | .callExpression => [.callExpression, .newExpression]
  | .wrappedExpression => [.parenthesizedExpression, .deleteExpression, .typeOfExpression,
      .voidExpression, .awaitExpression, .spreadElementExpression]
  | .unaryExpression => [.prefixUnaryExpression, .postfixUnaryExpression]
  | .binaryExpression => [.binaryExpression]
  | .conditionalExpression => [.conditionalExpression]
  | .functionExpression => [.functionExpression]
  | .arrowFunction => [.arrowFunction]
  | .block => [.block]
  | .expressionStatement => [.expressionStatement]
  | .ifStatement => [.ifStatement]
  | .jump => [.breakStatement, .continueStatement]
  | .returnStatement => [.returnStatement]
  | .variableDeclaration => [.variableDeclaration]
  | .variableDeclarationList => [.variableDeclarationList]
  | .functionDeclaration => [.functionDeclaration]
  | .sourceFile => [.sourceFile]

end Family

namespace Node

/-- The text of a literal or an identifier. -/
def text (n : Node η) : Option String := n.payload.text? "text"

/-- The child of a given index. -/
def child? (n : Node η) (i : Nat) : Option (Node η) := n.children[i]?

/-- The node in a slot of a given name. -/
def node? (n : Node η) (slot : String) : Option (Node η) := n.fields.node? slot

/-- The row in a slot of a given name. -/
def row? (n : Node η) (slot : String) : Option (Row η (Node η)) := n.fields.row? slot

/-- The families of a node. -/
def families (n : Node η) : List Family := Family.all.filter (·.kinds.contains n.kind)

end Node

end SharedTree
