import SharedTree.Kind

/-!
# What a node of each kind holds

A node holds attributes (texts, tokens, keywords and labels) and slots for other nodes. The
schema of a kind lists both in order: the attributes come first, then the slots, in the order in
which the children of a node are listed. A kind is terminal when passes do not enter its nodes.
-/

namespace SharedTree

/-- What a slot can hold: a node, perhaps a node, a row of nodes, or perhaps a row. -/
inductive Arity where
  | one | opt | row | optRow
deriving DecidableEq, Repr

/-- A slot for children: its name, what it can hold, and the label under which the removal of a
child that it cannot do without is reported. -/
structure Slot where
  name : String
  arity : Arity
  label : String := name
deriving DecidableEq, Repr

namespace Slot

/-- A slot that always holds a node. -/
@[reducible] def one (name : String) : Slot := ⟨name, .one, name⟩

/-- A slot that may be empty. -/
@[reducible] def opt (name : String) : Slot := ⟨name, .opt, name⟩

/-- A slot that always holds a row, possibly an empty one. -/
@[reducible] def row (name : String) : Slot := ⟨name, .row, name⟩

/-- A slot that may hold a row. -/
@[reducible] def optRow (name : String) : Slot := ⟨name, .optRow, name⟩

end Slot

/-- The sorts of values that are not nodes. -/
inductive ValueSort where
  | text | token | keyword | number | numbers
deriving DecidableEq, Repr

/-- A value that a node carries beside its children. -/
structure Attribute where
  name : String
  sort : ValueSort
deriving DecidableEq, Repr

namespace Kind

/-- The attributes of a kind. -/
def attributes : Kind → List Attribute
  | .stringLiteral | .numericLiteral | .regularExpressionLiteral | .noSubstitutionTemplateLiteral
  | .templateHead | .templateMiddle | .templateTail | .identifier => [⟨"text", .text⟩]
  | .token => [⟨"token", .token⟩]
  | .keywordType => [⟨"keyword", .keyword⟩]
  | .prefixUnaryExpression | .postfixUnaryExpression | .binaryExpression => [⟨"operator", .token⟩]
  | .generatedLabel => [⟨"label", .number⟩, ⟨"label_numbers", .numbers⟩]
  | .sourceFile => [⟨"file_name", .text⟩]
  | _ => []

/-- The slots of a kind, in the order of its children. -/
def slots : Kind → List Slot
  | .qualifiedName | .binaryExpression => [.one "left", .one "right"]
  | .computedPropertyName | .parenthesizedExpression | .deleteExpression | .typeOfExpression
  | .voidExpression | .awaitExpression | .spreadElementExpression | .expressionStatement
  | .throwStatement => [.one "expression"]
  | .typeParameter => [.one "name", .opt "constraint", .opt "expression"]
  | .parameter =>
    [.one "name", .opt "initializer", .opt "type_annotation", .optRow "modifiers",
     .opt "dot_dot_dot_token", .opt "question_token"]
  | .propertySignature => [.one "name", .opt "type_annotation", .opt "question_token"]
  | .propertyDeclaration =>
    [.one "name", .opt "initializer", .opt "type_annotation", .opt "question_token"]
  | .methodSignature =>
    [.one "name", .row "parameters", .optRow "type_parameters", .opt "type_annotation",
     .optRow "modifiers", .opt "asterisk_token", .opt "question_token"]
  | .methodDeclaration | .functionDeclaration =>
    [.one "name", .row "parameters", .opt "body", .optRow "type_parameters", .opt "type_annotation",
     .optRow "modifiers", .opt "asterisk_token"]
  | .constructor =>
    [.row "parameters", .opt "body", .optRow "type_parameters", .opt "type_annotation",
     .optRow "modifiers"]
  | .getAccessor | .setAccessor =>
    [.one "name", .row "parameters", .opt "body", .optRow "type_parameters", .opt "type_annotation",
     .optRow "modifiers"]
  | .callSignature | .constructSignature | .indexSignature =>
    [.row "parameters", .optRow "type_parameters", .opt "type_annotation", .optRow "modifiers"]
  | .typeReference => [.one "type_name", .optRow "type_arguments"]
  | .functionType | .constructorType =>
    [.row "parameters", .optRow "type_parameters", .opt "type_annotation"]
  | .typeQuery => [.one "expr_name"]
  | .typeLiteral => [.row "members"]
  | .arrayType => [.one "element_type"]
  | .tupleType => [.row "element_types"]
  | .unionType => [.row "types"]
  | .parenthesizedType => [.one "type_node"]
  | .objectBindingPattern | .arrayBindingPattern | .arrayLiteralExpression => [.row "elements"]
  | .bindingElement => [.one "name", .opt "property_name", .opt "initializer"]
  | .objectLiteralExpression => [.row "properties"]
  | .propertyAccessExpression => [.one "expression", .one "name"]
  | .elementAccessExpression => [.one "expression", .one "argument_expression"]
  | .callExpression | .newExpression => [.one "expression", .row "arguments"]
  | .taggedTemplateExpression => [.one "tag", .one "template"]
  | .typeAssertionExpression => [⟨"type_annotation", .one, "type"⟩, .one "expression"]
  | .functionExpression =>
    [.opt "name", .row "parameters", .one "body", .optRow "type_parameters", .opt "type_annotation",
     .optRow "modifiers", .opt "asterisk_token"]
  | .arrowFunction =>
    [.row "parameters", .one "body", .optRow "type_parameters", .opt "type_annotation",
     .optRow "modifiers"]
  | .prefixUnaryExpression | .postfixUnaryExpression => [.one "operand"]
  | .conditionalExpression => [.one "condition", .one "when_true", .one "when_false"]
  | .templateExpression => [.one "head", .row "template_spans"]
  | .yieldExpression => [.opt "expression", .opt "asterisk_token"]
  | .templateSpan => [.one "expression", .one "literal"]
  | .block | .defaultClause | .sourceFile => [.row "statements"]
  | .variableStatement => [.one "declaration_list"]
  | .ifStatement => [.one "expression", .one "then_statement", .opt "else_statement"]
  | .doStatement => [.one "statement", .one "expression"]
  | .whileStatement | .withStatement => [.one "expression", .one "statement"]
  | .forStatement => [.opt "initializer", .opt "condition", .opt "iterator", .one "statement"]
  | .forInStatement => [.one "initializer", .one "expression", .one "statement"]
  | .continueStatement | .breakStatement => [.opt "label"]
  | .returnStatement => [.opt "expression"]
  | .switchStatement => [.one "expression", .row "clauses"]
  | .labeledStatement => [.one "label", .one "statement"]
  | .tryStatement => [.one "try_block", .opt "catch_clause", .opt "finally_block"]
  | .variableDeclaration => [.one "name", .opt "initializer"]
  | .variableDeclarationList => [.row "declarations"]
  | .caseClause => [.one "expression", .row "statements"]
  | .catchClause => [.one "name", .one "block"]
  | .propertyAssignment => [.one "name", .one "initializer"]
  | .shorthandPropertyAssignment => [.one "name"]
  | _ => []

/-- Terminal kinds: passes hand their nodes on without looking at the children. -/
def isTerminal : Kind → Bool
  | .stringLiteral | .numericLiteral | .regularExpressionLiteral | .noSubstitutionTemplateLiteral
  | .templateHead | .templateMiddle | .templateTail | .identifier | .thisKeyword | .superKeyword
  | .nullKeyword | .trueKeyword | .falseKeyword | .token | .keywordType | .typeReference
  | .functionType | .constructorType | .typeQuery | .typeLiteral | .arrayType | .tupleType
  | .unionType | .parenthesizedType | .generatedLabel | .omittedExpression | .emptyStatement
  | .continueStatement | .breakStatement | .debuggerStatement | .shorthandPropertyAssignment => true
  | _ => false

end Kind

end SharedTree
