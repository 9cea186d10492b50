/-!
# Tokens and type keywords

Operators are attributes of expressions; modifiers and the marks for rests, optional and generator
members are nodes of their own that carry a token. The keywords name the built-in types.
-/

namespace SharedTree

/-- Punctuation, operators and modifiers. -/
inductive Token where
  -- punctuation
  | dotDotDot | question | comma
  -- arithmetic
  | plus | minus | asterisk | slash | percent | plusPlus | minusMinus
  -- bitwise and shifts
  | lessThanLessThan | greaterThanGreaterThan | greaterThanGreaterThanGreaterThan | ampersand | bar
  | caret | tilde
  -- logical
  | exclamation | ampersandAmpersand | barBar
  -- comparison
  | lessThan | greaterThan | lessThanEquals | greaterThanEquals | equalsEquals | exclamationEquals
  | equalsEqualsEquals | exclamationEqualsEquals | instanceOfKeyword | inKeyword
  -- assignment
  | equals | plusEquals | minusEquals | asteriskEquals | slashEquals | percentEquals
  | lessThanLessThanEquals | greaterThanGreaterThanEquals | greaterThanGreaterThanGreaterThanEquals
  | ampersandEquals | barEquals | caretEquals
  -- modifiers
  | exportKeyword | declareKeyword | publicKeyword | privateKeyword | protectedKeyword
  | staticKeyword | defaultKeyword | asyncKeyword | constKeyword
deriving DecidableEq, Repr, Inhabited

namespace Token

/-- The name of a token. -/
def name : Token → String
  | .dotDotDot => "DotDotDot"
  | .question => "Question"
  | .comma => "Comma"
  | .plus => "Plus"
  | .minus => "Minus"
  | .asterisk => "Asterisk"
  | .slash => "Slash"
  | .percent => "Percent"
  | .plusPlus => "PlusPlus"
  | .minusMinus => "MinusMinus"
  | .lessThanLessThan => "LessThanLessThan"
  | .greaterThanGreaterThan => "GreaterThanGreaterThan"
  | .greaterThanGreaterThanGreaterThan => "GreaterThanGreaterThanGreaterThan"
  | .ampersand => "Ampersand"
  | .bar => "Bar"
  | .caret => "Caret"
  | .tilde => "Tilde"
  | .exclamation => "Exclamation"
  | .ampersandAmpersand => "AmpersandAmpersand"
  | .barBar => "BarBar"
  | .lessThan => "LessThan"
  | .greaterThan => "GreaterThan"
  | .lessThanEquals => "LessThanEquals"
  | .greaterThanEquals => "GreaterThanEquals"
  | .equalsEquals => "EqualsEquals"
  | .exclamationEquals => "ExclamationEquals"
  | .equalsEqualsEquals => "EqualsEqualsEquals"
  | .exclamationEqualsEquals => "ExclamationEqualsEquals"
  | .instanceOfKeyword => "InstanceOfKeyword"
  | .inKeyword => "InKeyword"
  | .equals => "Equals"
  | .plusEquals => "PlusEquals"
  | .minusEquals => "MinusEquals"
  | .asteriskEquals => "AsteriskEquals"
  | .slashEquals => "SlashEquals"
  | .percentEquals => "PercentEquals"
  | .lessThanLessThanEquals => "LessThanLessThanEquals"
  | .greaterThanGreaterThanEquals => "GreaterThanGreaterThanEquals"
  | .greaterThanGreaterThanGreaterThanEquals => "GreaterThanGreaterThanGreaterThanEquals"
  | .ampersandEquals => "AmpersandEquals"
  | .barEquals => "BarEquals"
  | .caretEquals => "CaretEquals"
  | .exportKeyword => "ExportKeyword"
  | .declareKeyword => "DeclareKeyword"
  | .publicKeyword => "PublicKeyword"
  | .privateKeyword => "PrivateKeyword"
  | .protectedKeyword => "ProtectedKeyword"
  | .staticKeyword => "StaticKeyword"
  | .defaultKeyword => "DefaultKeyword"
  | .asyncKeyword => "AsyncKeyword"
  | .constKeyword => "ConstKeyword"

/-- The spelling of a token in a program. -/
def text : Token → String
  | .dotDotDot => "..."
  | .question => "?"
  | .comma => ","
  | .plus => "+"
  | .minus => "-"
  | .asterisk => "*"
  | .slash => "/"
  | .percent => "%"
  | .plusPlus => "++"
  | .minusMinus => "--"
  | .lessThanLessThan => "<<"
  | .greaterThanGreaterThan => ">>"
  | .greaterThanGreaterThanGreaterThan => ">>>"
  | .ampersand => "&"
  | .bar => "|"
  | .caret => "^"
  | .tilde => "~"
  | .exclamation => "!"
  | .ampersandAmpersand => "&&"
  | .barBar => "||"
  | .lessThan => "<"
  | .greaterThan => ">"
  | .lessThanEquals => "<="
  | .greaterThanEquals => ">="
  | .equalsEquals => "=="
  | .exclamationEquals => "!="
  | .equalsEqualsEquals => "==="
  | .exclamationEqualsEquals => "!=="
  | .instanceOfKeyword => "instanceof"
  | .inKeyword => "in"
  | .equals => "="
  | .plusEquals => "+="
  | .minusEquals => "-="
  | .asteriskEquals => "*="
  | .slashEquals => "/="
  | .percentEquals => "%="
  | .lessThanLessThanEquals => "<<="
  | .greaterThanGreaterThanEquals => ">>="
  | .greaterThanGreaterThanGreaterThanEquals => ">>>="
  | .ampersandEquals => "&="
  | .barEquals => "|="
  | .caretEquals => "^="
  | .exportKeyword => "export"
  | .declareKeyword => "declare"
  | .publicKeyword => "public"
  | .privateKeyword => "private"
  | .protectedKeyword => "protected"
  | .staticKeyword => "static"
  | .defaultKeyword => "default"
  | .asyncKeyword => "async"
  | .constKeyword => "const"

/-- Every token, in the order of declaration. -/
def all : List Token := [
  .dotDotDot, .question, .comma, .plus, .minus, .asterisk, .slash, .percent, .plusPlus,
  .minusMinus, .lessThanLessThan, .greaterThanGreaterThan, .greaterThanGreaterThanGreaterThan,
  .ampersand, .bar, .caret, .tilde, .exclamation, .ampersandAmpersand, .barBar, .lessThan,
  .greaterThan, .lessThanEquals, .greaterThanEquals, .equalsEquals, .exclamationEquals,
  .equalsEqualsEquals, .exclamationEqualsEquals, .instanceOfKeyword, .inKeyword, .equals,
  .plusEquals, .minusEquals, .asteriskEquals, .slashEquals, .percentEquals,
  .lessThanLessThanEquals, .greaterThanGreaterThanEquals, .greaterThanGreaterThanGreaterThanEquals,
  .ampersandEquals, .barEquals, .caretEquals, .exportKeyword, .declareKeyword, .publicKeyword,
  .privateKeyword, .protectedKeyword, .staticKeyword, .defaultKeyword, .asyncKeyword, .constKeyword]

/-- The token of a given name, if there is one. -/
def ofName? (s : String) : Option Token := all.find? (·.name == s)

/-- Tokens that modify a declaration. -/
def isModifier : Token → Bool
  | .exportKeyword | .declareKeyword | .publicKeyword | .privateKeyword | .protectedKeyword
  | .staticKeyword | .defaultKeyword | .asyncKeyword | .constKeyword => true
  | _ => false

/-- The assignment operators, the plain one included. -/
def isAssignment : Token → Bool
  | .equals | .plusEquals | .minusEquals | .asteriskEquals | .slashEquals | .percentEquals
  | .lessThanLessThanEquals | .greaterThanGreaterThanEquals
  | .greaterThanGreaterThanGreaterThanEquals | .ampersandEquals | .barEquals | .caretEquals => true
  | _ => false

end Token

/-- The keywords that stand for types. -/
inductive TypeKeyword where
  | any | string | number | boolean | void | symbol
deriving DecidableEq, Repr, Inhabited

namespace TypeKeyword

/-- The name of a type keyword. -/
def name : TypeKeyword → String
  | .any => "Any"
  | .string => "String"
  | .number => "Number"
  | .boolean => "Boolean"
  | .void => "Void"
  | .symbol => "Symbol"

/-- The spelling of a type keyword in a program. -/
def text : TypeKeyword → String
  | .any => "any"
  | .string => "string"
  | .number => "number"
  | .boolean => "boolean"
  | .void => "void"
  | .symbol => "symbol"

/-- Every type keyword, in the order of declaration. -/
def all : List TypeKeyword := [.any, .string, .number, .boolean, .void, .symbol]

/-- The type keyword of a given name, if there is one. -/
def ofName? (s : String) : Option TypeKeyword := all.find? (·.name == s)

end TypeKeyword

end SharedTree
