/-!
# Kinds of nodes

One kind for each production of the grammar. A kind has a name, a place in the order of
declaration and the classes it belongs to; what a node of the kind holds is the business of
`SharedTree.Schema`.
-/

namespace SharedTree

/-- The closed set of node kinds. -/
inductive Kind where
  -- literals
  | stringLiteral | numericLiteral | regularExpressionLiteral | noSubstitutionTemplateLiteral
  | templateHead | templateMiddle | templateTail
  -- identifiers, keywords and tokens
  | identifier | thisKeyword | superKeyword | nullKeyword | trueKeyword | falseKeyword | token
  -- names
  | qualifiedName | computedPropertyName
  -- members and signatures
  | typeParameter | parameter | propertySignature | propertyDeclaration | methodSignature
  | methodDeclaration | constructor | getAccessor | setAccessor | callSignature
  | constructSignature | indexSignature
  -- types
  | keywordType | typeReference | functionType | constructorType | typeQuery | typeLiteral
  | arrayType | tupleType | unionType | parenthesizedType
  -- binding patterns
  | objectBindingPattern | arrayBindingPattern | bindingElement
  -- expressions and template spans
  | arrayLiteralExpression | objectLiteralExpression | propertyAccessExpression
  | elementAccessExpression | callExpression | newExpression | taggedTemplateExpression
  | typeAssertionExpression | parenthesizedExpression | functionExpression | arrowFunction
  | deleteExpression | typeOfExpression | voidExpression | awaitExpression | prefixUnaryExpression
  | postfixUnaryExpression | binaryExpression | conditionalExpression | templateExpression
  | yieldExpression | generatedLabel | spreadElementExpression | omittedExpression | templateSpan
  -- statements
  | block | variableStatement | emptyStatement | expressionStatement | ifStatement | doStatement
  | whileStatement | forStatement | forInStatement | continueStatement | breakStatement
  | returnStatement | withStatement | switchStatement | labeledStatement | throwStatement
  | tryStatement | debuggerStatement
  -- declarations
  | variableDeclaration | variableDeclarationList | functionDeclaration
  -- clauses, property assignments and the file
  | caseClause | defaultClause | catchClause | propertyAssignment | shorthandPropertyAssignment
  | sourceFile
deriving DecidableEq, Repr, Inhabited

namespace Kind

/-- The name of a kind, as it is written in texts, errors and events. -/
def name : Kind → String
  | .stringLiteral => "StringLiteral"
  | .numericLiteral => "NumericLiteral"
  | .regularExpressionLiteral => "RegularExpressionLiteral"
  | .noSubstitutionTemplateLiteral => "NoSubstitutionTemplateLiteral"
  | .templateHead => "TemplateHead"
  | .templateMiddle => "TemplateMiddle"
  | .templateTail => "TemplateTail"
  | .identifier => "Identifier"
  | .thisKeyword => "ThisKeyword"
  | .superKeyword => "SuperKeyword"
  | .nullKeyword => "NullKeyword"
  | .trueKeyword => "TrueKeyword"
  | .falseKeyword => "FalseKeyword"
  | .token => "Token"
  | .qualifiedName => "QualifiedName"
  | .computedPropertyName => "ComputedPropertyName"
  | .typeParameter => "TypeParameter"
  | .parameter => "Parameter"
  | .propertySignature => "PropertySignature"
  | .propertyDeclaration => "PropertyDeclaration"
  | .methodSignature => "MethodSignature"
  | .methodDeclaration => "MethodDeclaration"
  | .constructor => "Constructor"
  | .getAccessor => "GetAccessor"
  | .setAccessor => "SetAccessor"
  | .callSignature => "CallSignature"
  | .constructSignature => "ConstructSignature"
  | .indexSignature => "IndexSignature"
  | .keywordType => "KeywordType"
  | .typeReference => "TypeReference"
  | .functionType => "FunctionType"
  | .constructorType => "ConstructorType"
  | .typeQuery => "TypeQuery"
  | .typeLiteral => "TypeLiteral"
  | .arrayType => "ArrayType"
  | .tupleType => "TupleType"
  | .unionType => "UnionType"
  | .parenthesizedType => "ParenthesizedType"
  | .objectBindingPattern => "ObjectBindingPattern"
  | .arrayBindingPattern => "ArrayBindingPattern"
  | .bindingElement => "BindingElement"
  | .arrayLiteralExpression => "ArrayLiteralExpression"
  | .objectLiteralExpression => "ObjectLiteralExpression"
  | .propertyAccessExpression => "PropertyAccessExpression"
  | .elementAccessExpression => "ElementAccessExpression"
  | .callExpression => "CallExpression"
  | .newExpression => "NewExpression"
  | .taggedTemplateExpression => "TaggedTemplateExpression"
  | .typeAssertionExpression => "TypeAssertionExpression"
  | .parenthesizedExpression => "ParenthesizedExpression"
  | .functionExpression => "FunctionExpression"
  | .arrowFunction => "ArrowFunction"
  | .deleteExpression => "DeleteExpression"
  | .typeOfExpression => "TypeOfExpression"
  | .voidExpression => "VoidExpression"
  | .awaitExpression => "AwaitExpression"
  | .prefixUnaryExpression => "PrefixUnaryExpression"
  | .postfixUnaryExpression => "PostfixUnaryExpression"
  | .binaryExpression => "BinaryExpression"
  | .conditionalExpression => "ConditionalExpression"
  | .templateExpression => "TemplateExpression"
  | .yieldExpression => "YieldExpression"
  | .generatedLabel => "GeneratedLabel"
  | .spreadElementExpression => "SpreadElementExpression"
  | .omittedExpression => "OmittedExpression"
  | .templateSpan => "TemplateSpan"
  | .block => "Block"
  | .variableStatement => "VariableStatement"
  | .emptyStatement => "EmptyStatement"
  | .expressionStatement => "ExpressionStatement"
  | .ifStatement => "IfStatement"
  | .doStatement => "DoStatement"
  | .whileStatement => "WhileStatement"
  | .forStatement => "ForStatement"
  | .forInStatement => "ForInStatement"
  | .continueStatement => "ContinueStatement"
  | .breakStatement => "BreakStatement"
  | .returnStatement => "ReturnStatement"
  | .withStatement => "WithStatement"
  | .switchStatement => "SwitchStatement"
  | .labeledStatement => "LabeledStatement"
  | .throwStatement => "ThrowStatement"
  | .tryStatement => "TryStatement"
  | .debuggerStatement => "DebuggerStatement"
  | .variableDeclaration => "VariableDeclaration"
  | .variableDeclarationList => "VariableDeclarationList"
  | .functionDeclaration => "FunctionDeclaration"
  | .caseClause => "CaseClause"
  | .defaultClause => "DefaultClause"
  | .catchClause => "CatchClause"
  | .propertyAssignment => "PropertyAssignment"
  | .shorthandPropertyAssignment => "ShorthandPropertyAssignment"
  | .sourceFile => "SourceFile"

/-- Every kind, in the order of declaration. -/
def all : List Kind := [
  .stringLiteral, .numericLiteral, .regularExpressionLiteral, .noSubstitutionTemplateLiteral,
  .templateHead, .templateMiddle, .templateTail, .identifier, .thisKeyword, .superKeyword,
  .nullKeyword, .trueKeyword, .falseKeyword, .token, .qualifiedName, .computedPropertyName,
  .typeParameter, .parameter, .propertySignature, .propertyDeclaration, .methodSignature,
  .methodDeclaration, .constructor, .getAccessor, .setAccessor, .callSignature,
  .constructSignature, .indexSignature, .keywordType, .typeReference, .functionType,
  .constructorType, .typeQuery, .typeLiteral, .arrayType, .tupleType, .unionType,
  .parenthesizedType, .objectBindingPattern, .arrayBindingPattern, .bindingElement,
  .arrayLiteralExpression, .objectLiteralExpression, .propertyAccessExpression,
  .elementAccessExpression, .callExpression, .newExpression, .taggedTemplateExpression,
  .typeAssertionExpression, .parenthesizedExpression, .functionExpression, .arrowFunction,
  .deleteExpression, .typeOfExpression, .voidExpression, .awaitExpression, .prefixUnaryExpression,
  .postfixUnaryExpression, .binaryExpression, .conditionalExpression, .templateExpression,
  .yieldExpression, .generatedLabel, .spreadElementExpression, .omittedExpression, .templateSpan,
  .block, .variableStatement, .emptyStatement, .expressionStatement, .ifStatement, .doStatement,
  .whileStatement, .forStatement, .forInStatement, .continueStatement, .breakStatement,
  .returnStatement, .withStatement, .switchStatement, .labeledStatement, .throwStatement,
  .tryStatement, .debuggerStatement, .variableDeclaration, .variableDeclarationList,
  .functionDeclaration, .caseClause, .defaultClause, .catchClause, .propertyAssignment,
  .shorthandPropertyAssignment, .sourceFile]

/-- The place of a kind in the order of declaration. -/
def index (k : Kind) : Nat := k.ctorIdx

/-- The kind of a given name, if there is one. -/
def ofName? (s : String) : Option Kind := all.find? (·.name == s)

/-- Kinds are ordered as they are declared. -/
def order (k l : Kind) : Ordering := compare k.index l.index

/-! ### Classes -/

/-- String, number, pattern and template pieces. -/
def isLiteral : Kind → Bool
  | .stringLiteral | .numericLiteral | .regularExpressionLiteral | .noSubstitutionTemplateLiteral
  | .templateHead | .templateMiddle | .templateTail => true
  | _ => false

/-- Keywords that stand alone as expressions. -/
def isKeyword : Kind → Bool
  | .thisKeyword | .superKeyword | .nullKeyword | .trueKeyword | .falseKeyword => true
  | _ => false

/-- Type annotations, which passes never enter. -/
def isType : Kind → Bool
  | .keywordType | .typeReference | .functionType | .constructorType | .typeQuery | .typeLiteral
  | .arrayType | .tupleType | .unionType | .parenthesizedType => true
  | _ => false

/-- Statements; a function declaration is one as well. -/
def isStatement : Kind → Bool
  | .block | .variableStatement | .emptyStatement | .expressionStatement | .ifStatement
  | .doStatement | .whileStatement | .forStatement | .forInStatement | .continueStatement
  | .breakStatement | .returnStatement | .withStatement | .switchStatement | .labeledStatement
  | .throwStatement | .tryStatement | .debuggerStatement | .functionDeclaration => true
  | _ => false

/-- Expressions: literals, keywords and the compound forms. -/
def isExpression (k : Kind) : Bool :=
  k.isLiteral || k.isKeyword || compound k
where
  compound : Kind → Bool
    | .identifier | .arrayLiteralExpression | .objectLiteralExpression | .propertyAccessExpression
    | .elementAccessExpression | .callExpression | .newExpression | .taggedTemplateExpression
    | .typeAssertionExpression | .parenthesizedExpression | .functionExpression | .arrowFunction
    | .deleteExpression | .typeOfExpression | .voidExpression | .awaitExpression
    | .prefixUnaryExpression | .postfixUnaryExpression | .binaryExpression | .conditionalExpression
    | .templateExpression | .yieldExpression | .generatedLabel | .spreadElementExpression
    | .omittedExpression => true
    | _ => false

/-- The classes of kinds. -/
inductive Class where
  | literal | keyword | type | statement | expression
deriving DecidableEq, Repr

/-- The classes in the order in which they are listed. -/
def Class.all : List Class := [.literal, .keyword, .type, .statement, .expression]

/-- The name of a class. -/
def Class.name : Class → String
  | .literal => "literal"
  | .keyword => "keyword"
  | .type => "type"
  | .statement => "statement"
  | .expression => "expression"

/-- Membership of a kind in a class. -/
def is (k : Kind) : Class → Bool
  | .literal => k.isLiteral
  | .keyword => k.isKeyword
  | .type => k.isType
  | .statement => k.isStatement
  | .expression => k.isExpression

/-- The classes that a kind belongs to. -/
def classes (k : Kind) : List Class := Class.all.filter k.is

end Kind

end SharedTree
