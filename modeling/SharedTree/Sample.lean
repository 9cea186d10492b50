import SharedTree.Handle

/-!
# Sample trees

`Sample.node` builds one node of any kind with its slots filled, for checks that have to reach
every slot of every kind. `Sample.program` builds a file with any number of functions, in which
every node has a span of its own. `Sample.twig` is the smallest tree in which a node must not be
removed.
-/

namespace SharedTree.Sample

/-! ### Pieces -/

private def identifier (text : String) : Build SharedNode :=
  Node.create .identifier (.cons (.text text) .nil) .nil

private def literal (text : String) : Build SharedNode :=
  Node.create .numericLiteral (.cons (.text text) .nil) .nil

private def token (t : Token) : Build SharedNode :=
  Node.create .token (.cons (.token t) .nil) .nil

private def keyword (k : TypeKeyword) : Build SharedNode :=
  Node.create .keywordType (.cons (.keyword k) .nil) .nil

private def statement (text : String) : Build SharedNode := do
  Node.create .expressionStatement .nil (.cons (.one (← identifier text)) .nil)

private def block : Build SharedNode := do
  let body ← Row.create [← statement "body"]
  Node.create .block .nil (.cons (.row body) .nil)

private def numberType : Build (Option SharedNode) := do
  return some (← keyword .number)

private def modifiers : Build (Option SharedRow) := do
  return some (← Row.create [← token .exportKeyword])

private def typeParameter : Build SharedNode := do
  Node.create .typeParameter .nil
    (.cons (.one (← identifier "T")) (.cons (.opt none) (.cons (.opt none) .nil)))

private def typeParameters : Build (Option SharedRow) := do
  return some (← Row.create [← typeParameter])

private def parameter : Build SharedNode := do
  Node.create .parameter .nil
    (.cons (.one (← identifier "p")) (.cons (.opt (← literal "0")) (.cons (.opt (← numberType))
      (.cons (.optRow none) (.cons (.opt none) (.cons (.opt none) .nil))))))

private def parameters : Build SharedRow := do
  Row.create [← parameter]

private def declarator (text : String) (initializer : Option String) : Build SharedNode := do
  let name ← identifier text
  let value ← initializer.mapM literal
  Node.create .variableDeclaration .nil (.cons (.one name) (.cons (.opt value) .nil))

private def declarations (items : List SharedNode) (flags : Flags) : Build SharedNode := do
  Node.create .variableDeclarationList .nil (.cons (.row (← Row.create items)) .nil) {} flags

private def bindingElement (text : String) (property initializer : Option SharedNode) :
    Build SharedNode := do
  Node.create .bindingElement .nil
    (.cons (.one (← identifier text)) (.cons (.opt property) (.cons (.opt initializer) .nil)))

private def templatePart (k : Kind) (payload : Payload k.attributes)
    (fields : Fields SharedNode SharedRow k.slots) (text : String) : Build SharedNode := do
  let part ← Node.create k payload fields
  Node.create .templateSpan .nil (.cons (.one (← identifier text)) (.cons (.one part) .nil))

private def catchClause : Build SharedNode := do
  Node.create .catchClause .nil (.cons (.one (← identifier "e")) (.cons (.one (← block)) .nil))

private def caseClause : Build SharedNode := do
  let value ← literal "1"
  let body ← Row.create [← statement "one"]
  Node.create .caseClause .nil (.cons (.one value) (.cons (.row body) .nil))

private def defaultClause : Build SharedNode := do
  Node.create .defaultClause .nil (.cons (.row (← Row.create [← statement "other"])) .nil)

private def shorthand (text : String) : Build SharedNode := do
  Node.create .shorthandPropertyAssignment .nil (.cons (.one (← identifier text)) .nil)

private def property (text : String) : Build SharedNode := do
  Node.create .propertyAssignment .nil
    (.cons (.one (← identifier text)) (.cons (.one (← literal "1")) .nil))

private def increment : Build SharedNode := do
  Node.create .postfixUnaryExpression (.cons (.token .plusPlus) .nil)
    (.cons (.one (← identifier "i")) .nil)

/-! ### One node of each kind -/

/-- A node of a kind with every slot filled. -/
def node : Kind → Build SharedNode
  | .stringLiteral => Node.create .stringLiteral (.cons (.text "s") .nil) .nil
  | .numericLiteral => literal "1"
  | .regularExpressionLiteral =>
    Node.create .regularExpressionLiteral (.cons (.text "/a+/g") .nil) .nil
  | .noSubstitutionTemplateLiteral =>
    Node.create .noSubstitutionTemplateLiteral (.cons (.text "plain") .nil) .nil
  | .templateHead => Node.create .templateHead (.cons (.text "head ") .nil) .nil
  | .templateMiddle => Node.create .templateMiddle (.cons (.text " mid ") .nil) .nil
  | .templateTail => Node.create .templateTail (.cons (.text " tail") .nil) .nil
  | .identifier => identifier "x"
  | .thisKeyword => Node.create .thisKeyword .nil .nil
  | .superKeyword => Node.create .superKeyword .nil .nil
  | .nullKeyword => Node.create .nullKeyword .nil .nil
  | .trueKeyword => Node.create .trueKeyword .nil .nil
  | .falseKeyword => Node.create .falseKeyword .nil .nil
  | .token => token .asyncKeyword
  | .qualifiedName => do
    Node.create .qualifiedName .nil
      (.cons (.one (← identifier "ns")) (.cons (.one (← identifier "T")) .nil))
  | .computedPropertyName => do
    Node.create .computedPropertyName .nil (.cons (.one (← identifier "key")) .nil)
  | .typeParameter => do
    Node.create .typeParameter .nil
      (.cons (.one (← identifier "T")) (.cons (.opt (← numberType))
        (.cons (.opt (← identifier "dflt")) .nil)))
  | .parameter => do
    Node.create .parameter .nil
      (.cons (.one (← identifier "p")) (.cons (.opt (← literal "0")) (.cons (.opt (← numberType))
        (.cons (.optRow (← modifiers)) (.cons (.opt (← token .dotDotDot))
          (.cons (.opt (← token .question)) .nil))))))
  | .propertySignature => do
    Node.create .propertySignature .nil
      (.cons (.one (← identifier "prop")) (.cons (.opt (← numberType))
        (.cons (.opt (← token .question)) .nil)))
  | .propertyDeclaration => do
    Node.create .propertyDeclaration .nil
      (.cons (.one (← identifier "field")) (.cons (.opt (← literal "1"))
        (.cons (.opt (← numberType)) (.cons (.opt (← token .question)) .nil))))
  | .methodSignature => do
    Node.create .methodSignature .nil
      (.cons (.one (← identifier "m")) (.cons (.row (← parameters))
        (.cons (.optRow (← typeParameters)) (.cons (.opt (← numberType))
          (.cons (.optRow (← modifiers)) (.cons (.opt (← token .asterisk))
            (.cons (.opt (← token .question)) .nil)))))))
  | .methodDeclaration => do
    Node.create .methodDeclaration .nil
      (.cons (.one (← identifier "m")) (.cons (.row (← parameters)) (.cons (.opt (← block))
        (.cons (.optRow (← typeParameters)) (.cons (.opt (← numberType))
          (.cons (.optRow (← modifiers)) (.cons (.opt (← token .asterisk)) .nil)))))))
  | .constructor => do
    Node.create .constructor .nil
      (.cons (.row (← parameters)) (.cons (.opt (← block)) (.cons (.optRow (← typeParameters))
        (.cons (.opt (← numberType)) (.cons (.optRow (← modifiers)) .nil)))))
  | .getAccessor => do
    Node.create .getAccessor .nil
      (.cons (.one (← identifier "value")) (.cons (.row (← Row.create [])) (.cons (.opt (← block))
        (.cons (.optRow (← typeParameters)) (.cons (.opt (← numberType))
          (.cons (.optRow (← modifiers)) .nil))))))
  | .setAccessor => do
    Node.create .setAccessor .nil
      (.cons (.one (← identifier "value")) (.cons (.row (← parameters)) (.cons (.opt (← block))
        (.cons (.optRow (← typeParameters)) (.cons (.opt (← numberType))
          (.cons (.optRow (← modifiers)) .nil))))))
  | .callSignature => do
    Node.create .callSignature .nil
      (.cons (.row (← parameters)) (.cons (.optRow (← typeParameters))
        (.cons (.opt (← numberType)) (.cons (.optRow (← modifiers)) .nil))))
  | .constructSignature => do
    Node.create .constructSignature .nil
      (.cons (.row (← parameters)) (.cons (.optRow (← typeParameters))
        (.cons (.opt (← numberType)) (.cons (.optRow (← modifiers)) .nil))))
  | .indexSignature => do
    Node.create .indexSignature .nil
      (.cons (.row (← parameters)) (.cons (.optRow (← typeParameters))
        (.cons (.opt (← numberType)) (.cons (.optRow (← modifiers)) .nil))))
  | .keywordType => keyword .string
  | .typeReference => do
    let arguments ← Row.create [← keyword .number]
    Node.create .typeReference .nil
      (.cons (.one (← identifier "Array")) (.cons (.optRow (some arguments)) .nil))
  | .functionType => do
    Node.create .functionType .nil
      (.cons (.row (← parameters)) (.cons (.optRow (← typeParameters))
        (.cons (.opt (← numberType)) .nil)))
  | .constructorType => do
    Node.create .constructorType .nil
      (.cons (.row (← parameters)) (.cons (.optRow (← typeParameters))
        (.cons (.opt (← numberType)) .nil)))
  | .typeQuery => do
    Node.create .typeQuery .nil (.cons (.one (← identifier "value")) .nil)
  | .typeLiteral => do
    let member ← Node.create .propertySignature .nil
      (.cons (.one (← identifier "a")) (.cons (.opt (← numberType)) (.cons (.opt none) .nil)))
    Node.create .typeLiteral .nil (.cons (.row (← Row.create [member])) .nil)
  | .arrayType => do
    Node.create .arrayType .nil (.cons (.one (← keyword .any)) .nil)
  | .tupleType => do
    let types ← Row.create [← keyword .string, ← keyword .boolean]
    Node.create .tupleType .nil (.cons (.row types) .nil)
  | .unionType => do
    let types ← Row.create [← keyword .void, ← keyword .symbol]
    Node.create .unionType .nil (.cons (.row types) .nil)
  | .parenthesizedType => do
    Node.create .parenthesizedType .nil (.cons (.one (← keyword .number)) .nil)
  | .objectBindingPattern => do
    let element ← bindingElement "a" (← identifier "b") (← literal "1")
    Node.create .objectBindingPattern .nil (.cons (.row (← Row.create [element])) .nil)
  | .arrayBindingPattern => do
    let element ← bindingElement "first" none none
    let hole ← Node.create .omittedExpression .nil .nil
    Node.create .arrayBindingPattern .nil (.cons (.row (← Row.create [element, hole])) .nil)
  | .bindingElement => do
    bindingElement "a" (← identifier "b") (← literal "2")
  | .arrayLiteralExpression => do
    let elements ← Row.create [← literal "1", ← literal "2"]
    Node.create .arrayLiteralExpression .nil (.cons (.row elements) .nil)
  | .objectLiteralExpression => do
    let properties ← Row.create [← property "a", ← shorthand "b"]
    Node.create .objectLiteralExpression .nil (.cons (.row properties) .nil)
  | .propertyAccessExpression => do
    Node.create .propertyAccessExpression .nil
      (.cons (.one (← identifier "obj")) (.cons (.one (← identifier "prop")) .nil))
  | .elementAccessExpression => do
    Node.create .elementAccessExpression .nil
      (.cons (.one (← identifier "arr")) (.cons (.one (← literal "0")) .nil))
  | .callExpression => do
    let arguments ← Row.create [← literal "1", ← identifier "y"]
    Node.create .callExpression .nil (.cons (.one (← identifier "f")) (.cons (.row arguments) .nil))
  | .newExpression => do
    let arguments ← Row.create [← literal "1"]
    Node.create .newExpression .nil (.cons (.one (← identifier "C")) (.cons (.row arguments) .nil))
  | .taggedTemplateExpression => do
    let template ← Node.create .noSubstitutionTemplateLiteral (.cons (.text "t") .nil) .nil
    Node.create .taggedTemplateExpression .nil
      (.cons (.one (← identifier "tag")) (.cons (.one template) .nil))
  | .typeAssertionExpression => do
    Node.create .typeAssertionExpression .nil
      (.cons (.one (← keyword .any)) (.cons (.one (← identifier "value")) .nil))
  | .parenthesizedExpression => do
    Node.create .parenthesizedExpression .nil (.cons (.one (← identifier "inner")) .nil)
  | .functionExpression => do
    Node.create .functionExpression .nil
      (.cons (.opt (← identifier "named")) (.cons (.row (← parameters)) (.cons (.one (← block))
        (.cons (.optRow (← typeParameters)) (.cons (.opt (← numberType))
          (.cons (.optRow (← modifiers)) (.cons (.opt (← token .asterisk)) .nil)))))))
  | .arrowFunction => do
    let async ← Row.create [← token .asyncKeyword]
    Node.create .arrowFunction .nil
      (.cons (.row (← parameters)) (.cons (.one (← identifier "result"))
        (.cons (.optRow (← typeParameters)) (.cons (.opt (← numberType))
          (.cons (.optRow (some async)) .nil)))))
  | .deleteExpression => do
    Node.create .deleteExpression .nil (.cons (.one (← identifier "gone")) .nil)
  | .typeOfExpression => do
    Node.create .typeOfExpression .nil (.cons (.one (← identifier "what")) .nil)
  | .voidExpression => do
    Node.create .voidExpression .nil (.cons (.one (← literal "0")) .nil)
  | .awaitExpression => do
    Node.create .awaitExpression .nil (.cons (.one (← identifier "promise")) .nil)
  | .prefixUnaryExpression => do
    Node.create .prefixUnaryExpression (.cons (.token .minus) .nil)
      (.cons (.one (← literal "1")) .nil)
  | .postfixUnaryExpression => increment
  | .binaryExpression => do
    Node.create .binaryExpression (.cons (.token .plus) .nil)
      (.cons (.one (← literal "3")) (.cons (.one (← literal "4")) .nil))
  | .conditionalExpression => do
    Node.create .conditionalExpression .nil
      (.cons (.one (← identifier "c")) (.cons (.one (← literal "1"))
        (.cons (.one (← literal "2")) .nil)))
  | .templateExpression => do
    let head ← Node.create .templateHead (.cons (.text "a") .nil) .nil
    let middle ← templatePart .templateMiddle (.cons (.text "b") .nil) .nil "x"
    let tail ← templatePart .templateTail (.cons (.text "c") .nil) .nil "y"
    Node.create .templateExpression .nil
      (.cons (.one head) (.cons (.row (← Row.create [middle, tail])) .nil))
  | .yieldExpression => do
    Node.create .yieldExpression .nil
      (.cons (.opt (← identifier "item")) (.cons (.opt (← token .asterisk)) .nil))
  | .generatedLabel =>
    Node.create .generatedLabel (.cons (.number 1) (.cons (.numbers [1, 2]) .nil)) .nil
  | .spreadElementExpression => do
    Node.create .spreadElementExpression .nil (.cons (.one (← identifier "rest")) .nil)
  | .omittedExpression => Node.create .omittedExpression .nil .nil
  | .templateSpan => templatePart .templateTail (.cons (.text "end") .nil) .nil "x"
  | .block => do
    let statements ← Row.create [← statement "a", ← statement "b"]
    Node.create .block .nil (.cons (.row statements) .nil)
  | .variableStatement => do
    let list ← declarations [← declarator "v" "1"] Flags.isLet
    Node.create .variableStatement .nil (.cons (.one list) .nil)
  | .emptyStatement => Node.create .emptyStatement .nil .nil
  | .expressionStatement => statement "expr"
  | .ifStatement => do
    Node.create .ifStatement .nil
      (.cons (.one (← identifier "cond")) (.cons (.one (← statement "then"))
        (.cons (.opt (← statement "otherwise")) .nil)))
  | .doStatement => do
    Node.create .doStatement .nil
      (.cons (.one (← block)) (.cons (.one (← identifier "again")) .nil))
  | .whileStatement => do
    Node.create .whileStatement .nil
      (.cons (.one (← identifier "more")) (.cons (.one (← block)) .nil))
  | .forStatement => do
    let start ← declarations [← declarator "i" "0"] Flags.isLet
    let bound ← Node.create .binaryExpression (.cons (.token .lessThan) .nil)
      (.cons (.one (← identifier "i")) (.cons (.one (← literal "10")) .nil))
    Node.create .forStatement .nil
      (.cons (.opt start) (.cons (.opt bound) (.cons (.opt (← increment))
        (.cons (.one (← block)) .nil))))
  | .forInStatement => do
    Node.create .forInStatement .nil
      (.cons (.one (← identifier "k")) (.cons (.one (← identifier "obj"))
        (.cons (.one (← block)) .nil)))
  | .continueStatement => do
    Node.create .continueStatement .nil (.cons (.opt (← identifier "outer")) .nil)
  | .breakStatement => do
    Node.create .breakStatement .nil (.cons (.opt (← identifier "outer")) .nil)
  | .returnStatement => do
    Node.create .returnStatement .nil (.cons (.opt (← literal "0")) .nil)
  | .withStatement => do
    Node.create .withStatement .nil
      (.cons (.one (← identifier "scope")) (.cons (.one (← block)) .nil))
  | .switchStatement => do
    let clauses ← Row.create [← caseClause, ← defaultClause]
    Node.create .switchStatement .nil
      (.cons (.one (← identifier "tag")) (.cons (.row clauses) .nil))
  | .labeledStatement => do
    Node.create .labeledStatement .nil
      (.cons (.one (← identifier "outer")) (.cons (.one (← statement "body")) .nil))
  | .throwStatement => do
    Node.create .throwStatement .nil (.cons (.one (← identifier "err")) .nil)
  | .tryStatement => do
    Node.create .tryStatement .nil
      (.cons (.one (← block)) (.cons (.opt (← catchClause)) (.cons (.opt (← block)) .nil)))
  | .debuggerStatement => Node.create .debuggerStatement .nil .nil
  | .variableDeclaration => declarator "v" "1"
  | .variableDeclarationList => do
    declarations [← declarator "a" "1", ← declarator "b" none] Flags.isConst
  | .functionDeclaration => do
    Node.create .functionDeclaration .nil
      (.cons (.one (← identifier "f")) (.cons (.row (← parameters)) (.cons (.opt (← block))
        (.cons (.optRow (← typeParameters)) (.cons (.opt (← numberType))
          (.cons (.optRow (← modifiers)) (.cons (.opt (← token .asterisk)) .nil)))))))
      {} Flags.exported
  | .caseClause => caseClause
  | .defaultClause => defaultClause
  | .catchClause => catchClause
  | .propertyAssignment => property "key"
  | .shorthandPropertyAssignment => shorthand "key"
  | .sourceFile => do
    let statements ← Row.create [← statement "a", ← statement "b"]
    Node.create .sourceFile (.cons (.text "sample.ts") .nil) (.cons (.row statements) .nil)

/-! ### A file of functions -/

/-- Building with an offset at which the next span begins. -/
private abbrev Place : Type → Type := StateT UInt32 Build

/-- The span of the next `width` offsets. -/
private def next (width : UInt32) : Place Span := do
  let pos ← get
  set (pos + width)
  return ⟨pos, pos + width⟩

private def identifierOf (text : String) (width : UInt32) : Place SharedNode := do
  Node.create .identifier (.cons (.text text) .nil) .nil (← next width)

private def literalOf (text : String) (width : UInt32) : Place SharedNode := do
  Node.create .numericLiteral (.cons (.text text) .nil) .nil (← next width)

/-- The declaration of `y` as the sum of `index` and `x`. -/
private def declarationOf (index : Nat) : Place SharedNode := do
  let left ← literalOf (toString index) 1
  let right ← identifierOf "x" 1
  let sum ← Node.create .binaryExpression (.cons (.token .plus) .nil)
    (.cons (.one left) (.cons (.one right) .nil)) (← next 3)
  let name ← identifierOf "y" 1
  let declaration ← Node.create .variableDeclaration .nil
    (.cons (.one name) (.cons (.opt (some sum)) .nil)) (← next 5)
  let row ← Row.create [declaration]
  let list ← Node.create .variableDeclarationList .nil (.cons (.row row) .nil) (← next 6)
    Flags.isConst
  Node.create .variableStatement .nil (.cons (.one list) .nil) (← next 7)

/-- The call of `log` on `y`. -/
private def callOf : Place SharedNode := do
  let callee ← identifierOf "log" 3
  let argument ← identifierOf "y" 1
  let row ← Row.create [argument]
  let call ← Node.create .callExpression .nil (.cons (.one callee) (.cons (.row row) .nil))
    (← next 6)
  Node.create .expressionStatement .nil (.cons (.one call) .nil) (← next 7)

/-- The return of `y` if it is greater than ten. -/
private def guardOf : Place SharedNode := do
  let left ← identifierOf "y" 1
  let right ← literalOf "10" 2
  let condition ← Node.create .binaryExpression (.cons (.token .greaterThan) .nil)
    (.cons (.one left) (.cons (.one right) .nil)) (← next 4)
  let value ← identifierOf "y" 1
  let result ← Node.create .returnStatement .nil (.cons (.opt (some value)) .nil) (← next 8)
  Node.create .ifStatement .nil
    (.cons (.one condition) (.cons (.one result) (.cons (.opt none) .nil))) (← next 14)

/-- The function of a given index. -/
private def functionOf (index : Nat) : Place SharedNode := do
  let declaration ← declarationOf index
  let call ← callOf
  let guard ← guardOf
  let statements ← Row.create [declaration, call, guard]
  let body ← Node.create .block .nil (.cons (.row statements) .nil) (← next 30)
  let name ← identifierOf ("f" ++ toString index) 2
  let parameterName ← identifierOf "x" 1
  let parameter ← Node.create .parameter .nil
    (.cons (.one parameterName) (.cons (.opt none) (.cons (.opt none) (.cons (.optRow none)
      (.cons (.opt none) (.cons (.opt none) .nil)))))) (← next 1)
  let parameters ← Row.create [parameter]
  Node.create .functionDeclaration .nil
    (.cons (.one name) (.cons (.row parameters) (.cons (.opt (some body)) (.cons (.optRow none)
      (.cons (.opt none) (.cons (.optRow none) (.cons (.opt none) .nil))))))) (← next 40)

/-- A file of `functions` functions, each with a few statements. Spans grow in the order in which
the nodes are built. -/
def program (functions : Nat) : Build SharedNode := do
  let (file, _) ← (build.run 0 : Build (SharedNode × UInt32))
  return file
where
  build : Place SharedNode := do
    let statements ← (List.range functions).mapM functionOf
    let row ← Row.create statements
    Node.create .sourceFile (.cons (.text "program.ts") .nil) (.cons (.row row) .nil) (← next 0)

/-! ### A twig -/

/-- A node without slots. -/
def leaf (h : Handle) : SharedNode := .mk h {} {} .thisKeyword .nil .nil

/-- A statement that consists of a leaf. -/
def twig : SharedNode :=
  .mk ⟨0, 1⟩ {} {} .expressionStatement .nil (.cons (.one (leaf ⟨0, 0⟩)) .nil)

end SharedTree.Sample
