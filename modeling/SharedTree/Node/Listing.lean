import SharedTree.Node.View

/-!
# The order in which children are listed

Callers that ask for the children of a node get them slot by slot. Which slots are read, in which order and how, is
written down kind by kind, apart from the schema.
-/

namespace SharedTree

variable {α η : Type}

/-- The slots that are read for the children of a kind: how a slot is read, and its name. -/
def Kind.listing : Kind → List (Arity × String)
  | .qualifiedName | .binaryExpression => [(.one, "left"), (.one, "right")]
  | .computedPropertyName | .parenthesizedExpression | .deleteExpression | .typeOfExpression | .voidExpression
  | .awaitExpression | .spreadElementExpression | .expressionStatement | .throwStatement => [(.one, "expression")]
  | .typeParameter => [(.one, "name"), (.opt, "constraint"), (.opt, "expression")]
  | .parameter =>
    [(.one, "name"), (.opt, "initializer"), (.opt, "type_annotation"), (.optRow, "modifiers"),
     (.opt, "dot_dot_dot_token"), (.opt, "question_token")]
  | .propertySignature => [(.one, "name"), (.opt, "type_annotation"), (.opt, "question_token")]
  | .propertyDeclaration =>
    [(.one, "name"), (.opt, "initializer"), (.opt, "type_annotation"), (.opt, "question_token")]
  | .methodSignature =>
    [(.one, "name"), (.row, "parameters"), (.optRow, "type_parameters"), (.opt, "type_annotation"),
     (.optRow, "modifiers"), (.opt, "asterisk_token"), (.opt, "question_token")]
  | .methodDeclaration | .functionDeclaration =>
    [(.one, "name"), (.row, "parameters"), (.opt, "body"), (.optRow, "type_parameters"), (.opt, "type_annotation"),
     (.optRow, "modifiers"), (.opt, "asterisk_token")]
  | .constructor =>
    [(.row, "parameters"), (.opt, "body"), (.optRow, "type_parameters"), (.opt, "type_annotation"),
     (.optRow, "modifiers")]
  | .getAccessor | .setAccessor =>
    [(.one, "name"), (.row, "parameters"), (.opt, "body"), (.optRow, "type_parameters"), (.opt, "type_annotation"),
     (.optRow, "modifiers")]
  | .callSignature | .constructSignature | .indexSignature =>
    [(.row, "parameters"), (.optRow, "type_parameters"), (.opt, "type_annotation"), (.optRow, "modifiers")]
  | .typeReference => [(.one, "type_name"), (.optRow, "type_arguments")]
  | .functionType | .constructorType =>
    [(.row, "parameters"), (.optRow, "type_parameters"), (.opt, "type_annotation")]
  | .typeQuery => [(.one, "expr_name")]
  | .typeLiteral => [(.row, "members")]
  | .arrayType => [(.one, "element_type")]
  | .tupleType => [(.row, "element_types")]
  | .unionType => [(.row, "types")]
  | .parenthesizedType => [(.one, "type_node")]
  | .objectBindingPattern | .arrayBindingPattern | .arrayLiteralExpression => [(.row, "elements")]
  | .bindingElement => [(.one, "name"), (.opt, "property_name"), (.opt, "initializer")]
  | .objectLiteralExpression => [(.row, "properties")]
  | .propertyAccessExpression => [(.one, "expression"), (.one, "name")]
  | .elementAccessExpression => [(.one, "expression"), (.one, "argument_expression")]
  | .callExpression | .newExpression => [(.one, "expression"), (.row, "arguments")]
  | .taggedTemplateExpression => [(.one, "tag"), (.one, "template")]
  | .typeAssertionExpression => [(.one, "type_annotation"), (.one, "expression")]
  | .functionExpression =>
    [(.opt, "name"), (.row, "parameters"), (.one, "body"), (.optRow, "type_parameters"), (.opt, "type_annotation"),
     (.optRow, "modifiers"), (.opt, "asterisk_token")]
  | .arrowFunction =>
    [(.row, "parameters"), (.one, "body"), (.optRow, "type_parameters"), (.opt, "type_annotation"),
     (.optRow, "modifiers")]
  | .prefixUnaryExpression | .postfixUnaryExpression => [(.one, "operand")]
  | .conditionalExpression => [(.one, "condition"), (.one, "when_true"), (.one, "when_false")]
  | .templateExpression => [(.one, "head"), (.row, "template_spans")]
  | .yieldExpression => [(.opt, "expression"), (.opt, "asterisk_token")]
  | .templateSpan => [(.one, "expression"), (.one, "literal")]
  | .block | .defaultClause | .sourceFile => [(.row, "statements")]
  | .variableStatement => [(.one, "declaration_list")]
  | .ifStatement => [(.one, "expression"), (.one, "then_statement"), (.opt, "else_statement")]
  | .doStatement => [(.one, "statement"), (.one, "expression")]
  | .whileStatement | .withStatement => [(.one, "expression"), (.one, "statement")]
  | .forStatement => [(.opt, "initializer"), (.opt, "condition"), (.opt, "iterator"), (.one, "statement")]
  | .forInStatement => [(.one, "initializer"), (.one, "expression"), (.one, "statement")]
  | .continueStatement | .breakStatement => [(.opt, "label")]
  | .returnStatement => [(.opt, "expression")]
  | .switchStatement => [(.one, "expression"), (.row, "clauses")]
  | .labeledStatement => [(.one, "label"), (.one, "statement")]
  | .tryStatement => [(.one, "try_block"), (.opt, "catch_clause"), (.opt, "finally_block")]
  | .variableDeclaration => [(.one, "name"), (.opt, "initializer")]
  | .variableDeclarationList => [(.row, "declarations")]
  | .caseClause => [(.one, "expression"), (.row, "statements")]
  | .catchClause => [(.one, "name"), (.one, "block")]
  | .propertyAssignment => [(.one, "name"), (.one, "initializer")]
  | .shorthandPropertyAssignment => [(.one, "name")]
  | _ => []

/-- What is read from the slot of a name: the node, the node if there is one, the elements of the row, or the elements
of the row if there is one. -/
def Fields.read {ss : List Slot} (fs : Fields α (Row η α) ss) : Arity × String → List α
  | (.one, name) | (.opt, name) => (fs.node? name).toList
  | (.row, name) | (.optRow, name) => (fs.row? name).elim [] Row.items

/-- The nodes directly below a node as they are listed for callers. -/
def Node.listed (n : Node η) : List (Node η) := n.kind.listing.flatMap n.fields.read

end SharedTree
