import SharedTree.Handle

/-!
# Making nodes from arguments

There is one function for each kind that makes a node of it. Its arguments are the values and the children of the node,
in an order of its own, then a span and flags, which may be left out. The arguments go to the attributes and slots of
their names. A row that the node cannot do without can be given by its elements alone.

* `Kind.parameters` is what is asked for, kind by kind.
* `Node.make` makes the node. It comes to nothing when some attribute or slot has no argument of its name and sort.
-/

namespace SharedTree

/-- What is asked for at one place of a list of arguments. -/
inductive Parameter where
  | value (name : String) (sort : ValueSort)
  | child (arity : Arity) (name : String)
deriving DecidableEq, Repr

namespace Parameter

/-- A node. -/
@[reducible] def one (name : String) : Parameter := .child .one name

/-- A node that may be left out. -/
@[reducible] def opt (name : String) : Parameter := .child .opt name

/-- A row, or the elements of a row. -/
@[reducible] def row (name : String) : Parameter := .child .row name

/-- A row that may be left out. -/
@[reducible] def optRow (name : String) : Parameter := .child .optRow name

end Parameter

/-- What is asked for to make a node of a kind. A numeric literal is asked for by the text of its value. -/
def Kind.parameters : Kind → List Parameter
  | .stringLiteral | .numericLiteral | .regularExpressionLiteral | .noSubstitutionTemplateLiteral | .templateHead
  | .templateMiddle | .templateTail | .identifier => [.value "text" .text]
  | .token => [.value "token" .token]
  | .qualifiedName => [.one "left", .one "right"]
  | .computedPropertyName | .parenthesizedExpression | .deleteExpression | .typeOfExpression | .voidExpression
  | .awaitExpression | .spreadElementExpression | .expressionStatement | .throwStatement => [.one "expression"]
  | .typeParameter => [.one "name", .opt "constraint", .opt "expression"]
  | .parameter =>
    [.one "name", .opt "initializer", .opt "type_annotation", .optRow "modifiers", .opt "dot_dot_dot_token",
     .opt "question_token"]
  | .propertySignature => [.one "name", .opt "type_annotation", .opt "question_token"]
  | .propertyDeclaration => [.one "name", .opt "initializer", .opt "type_annotation", .opt "question_token"]
  | .methodSignature =>
    [.one "name", .row "parameters", .optRow "type_parameters", .opt "type_annotation", .optRow "modifiers",
     .opt "asterisk_token", .opt "question_token"]
  | .methodDeclaration | .functionDeclaration =>
    [.one "name", .row "parameters", .opt "body", .optRow "type_parameters", .opt "type_annotation",
     .optRow "modifiers", .opt "asterisk_token"]
  | .constructor =>
    [.row "parameters", .opt "body", .optRow "type_parameters", .opt "type_annotation", .optRow "modifiers"]
  | .getAccessor | .setAccessor =>
    [.one "name", .row "parameters", .opt "body", .optRow "type_parameters", .opt "type_annotation",
     .optRow "modifiers"]
  | .callSignature | .constructSignature | .indexSignature =>
    [.row "parameters", .optRow "type_parameters", .opt "type_annotation", .optRow "modifiers"]
  | .keywordType => [.value "keyword" .keyword]
  | .typeReference => [.one "type_name", .optRow "type_arguments"]
  | .functionType | .constructorType => [.row "parameters", .optRow "type_parameters", .opt "type_annotation"]
  | .typeQuery => [.one "expr_name"]
  | .typeLiteral => [.row "members"]
  | .arrayType => [.one "element_type"]
  | .tupleType => [.row "element_types"]
  | .unionType => [.row "types"]
  | .parenthesizedType => [.one "type_node"]
  | .objectBindingPattern | .arrayBindingPattern | .arrayLiteralExpression => [.row "elements"]
  | .bindingElement => [.one "name", .opt "property_name", .opt "initializer"]
  | .objectLiteralExpression => [.row "properties"]
  | .propertyAccessExpression => [.one "expression", .one "name"]
  | .elementAccessExpression => [.one "expression", .one "argument_expression"]
  | .callExpression | .newExpression => [.one "expression", .row "arguments"]
  | .taggedTemplateExpression => [.one "tag", .one "template"]
  | .typeAssertionExpression => [.one "type_annotation", .one "expression"]
  | .functionExpression =>
    [.opt "name", .row "parameters", .one "body", .optRow "type_parameters", .opt "type_annotation",
     .optRow "modifiers", .opt "asterisk_token"]
  | .arrowFunction =>
    [.row "parameters", .one "body", .optRow "type_parameters", .opt "type_annotation", .optRow "modifiers"]
  | .prefixUnaryExpression => [.value "operator" .token, .one "operand"]
  | .postfixUnaryExpression => [.one "operand", .value "operator" .token]
  | .binaryExpression => [.one "left", .value "operator" .token, .one "right"]
  | .conditionalExpression => [.one "condition", .one "when_true", .one "when_false"]
  | .templateExpression => [.one "head", .row "template_spans"]
  | .yieldExpression => [.opt "expression", .opt "asterisk_token"]
  | .generatedLabel => [.value "label" .number, .value "label_numbers" .numbers]
  | .templateSpan => [.one "expression", .one "literal"]
  | .block | .defaultClause => [.row "statements"]
  | .variableStatement => [.one "declaration_list"]
  | .ifStatement => [.one "expression", .one "then_statement", .opt "else_statement"]
  | .doStatement => [.one "statement", .one "expression"]
  | .whileStatement | .withStatement => [.one "expression", .one "statement"]
  | .forStatement => [.opt "initializer", .opt "condition", .opt "iterator", .one "statement"]
  | .forInStatement => [.one "initializer", .one "expression", .one "statement"]
  | .continueStatement | .breakStatement => [.opt "label"]
  | .returnStatement => [.opt "expression"]
  | .switchStatement => [.one "expression", .row "clauses"]
  | .labeledStatement => [.one "label", .one "statement"]
  | .tryStatement => [.one "try_block", .opt "catch_clause", .opt "finally_block"]
  | .variableDeclaration => [.one "name", .opt "initializer"]
  | .variableDeclarationList => [.row "declarations"]
  | .caseClause => [.one "expression", .row "statements"]
  | .catchClause => [.one "name", .one "block"]
  | .propertyAssignment => [.one "name", .one "initializer"]
  | .shorthandPropertyAssignment => [.one "name"]
  | .sourceFile => [.value "file_name" .text, .row "statements"]
  | _ => []

/-! ### Arguments -/

/-- What is given for a child. Instead of a row the elements of a new one can be given. -/
inductive Given : Arity → Type where
  | one (n : SharedNode) : Given .one
  | opt (n : Option SharedNode) : Given .opt
  | row (r : SharedRow) : Given .row
  | items (ns : List SharedNode) : Given .row
  | optRow (r : Option SharedRow) : Given .optRow

/-- What is given for a parameter. -/
inductive Argument : Parameter → Type where
  | value {name : String} {sort : ValueSort} (d : Datum sort) : Argument (.value name sort)
  | child {arity : Arity} {name : String} (g : Given arity) : Argument (.child arity name)

/-- One argument for each parameter of a list. -/
inductive Arguments : List Parameter → Type where
  | nil : Arguments []
  | cons {p : Parameter} {ps : List Parameter} (a : Argument p) (rest : Arguments ps) : Arguments (p :: ps)

/-- The nodes among what is given for a child: a node that is there, or the elements of a row that is there. -/
def Given.nodes : {a : Arity} → Given a → List SharedNode
  | _, .one n => [n]
  | _, .opt n => n.toList
  | _, .row r => r.items
  | _, .items ns => ns
  | _, .optRow r => r.elim [] Row.items

namespace Arguments

/-- The nodes among all arguments, in the order of the arguments. -/
def nodes : {ps : List Parameter} → Arguments ps → List SharedNode
  | _, .nil => []
  | _, .cons (.value _) rest => rest.nodes
  | _, .cons (.child g) rest => g.nodes ++ rest.nodes

/-- The value that is given under a name. -/
def value? (name : String) (sort : ValueSort) : {ps : List Parameter} → Arguments ps → Option (Datum sort)
  | _, .nil => none
  | _, .cons (@Argument.value name' sort' d) rest =>
    if h : name' = name ∧ sort' = sort then some (h.2 ▸ d) else rest.value? name sort
  | _, .cons (.child _) rest => rest.value? name sort

/-- What is given for a child under a name. -/
def child? (arity : Arity) (name : String) : {ps : List Parameter} → Arguments ps → Option (Given arity)
  | _, .nil => none
  | _, .cons (.value _) rest => rest.child? arity name
  | _, .cons (@Argument.child arity' name' g) rest =>
    if h : name' = name ∧ arity' = arity then some (h.2 ▸ g) else rest.child? arity name

end Arguments

/-! ### Making a node -/

/-- The child that is given. A row that is given by its elements is a new one with an empty span. -/
def Given.settle : {a : Arity} → Given a → Build (Child SharedNode SharedRow a)
  | _, .one n => return .one n
  | _, .opt n => return .opt n
  | _, .row r => return .row r
  | _, .items ns => return .row (← Row.create ns)
  | _, .optRow r => return .optRow r

namespace Arguments

variable {ps : List Parameter}

/-- One value for each attribute of a list, by name. -/
def payload? (args : Arguments ps) : (as : List Attribute) → Option (Payload as)
  | [] => some .nil
  | a :: as => do return .cons (← args.value? a.name a.sort) (← args.payload? as)

/-- One child for each slot of a list, by name. -/
def fields? (args : Arguments ps) : (ss : List Slot) → Build (Option (Fields SharedNode SharedRow ss))
  | [] => return some .nil
  | s :: ss =>
    match args.child? s.arity s.name with
    | none => return none
    | some g => do
      let c ← g.settle
      let rest ← args.fields? ss
      return rest.map (.cons c)

end Arguments

/-- A new node of a kind, made of arguments. Without a span it has the empty one, and without flags it has none. -/
def Node.make (k : Kind) (args : Arguments k.parameters) (span : Option Span) (flags : Option Flags) :
    Build (Option SharedNode) :=
  match args.payload? k.attributes with
  | none => return none
  | some payload => do
    match ← args.fields? k.slots with
    | none => return none
    | some fields => return some (← Node.create k payload fields (span.getD {}) (flags.getD {}))

end SharedTree
