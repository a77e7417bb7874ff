/-!
# Token kinds

Operators are grouped by precedence class and not by symbol: the grammar decides what to build from
the kind, and reads the exact operator out of the token's text.
-/

namespace ScriptTree

/-- The kind of a token. -/
inductive Kind where
  -- Literals.
  | number | bigInt | string | regex | boolean | null | undefined
  -- Punctuation.
  | semicolon | lBrace | rBrace | lBracket | rBracket | lParen | rParen | dot | comma | colon
  | hash | backtick | arrow | dollarBrace | questionDot
  -- Operators.
  | logicalAnd | logicalOrNullish | bitwiseOr | bitwiseAnd | bitwiseXor | power | comparison
  | equality | assignment | complexAssignment | incrementDecrement | bang | additive
  | multiplicative
  -- Words of the language.
  | kwLetOrConst | kwIf | kwElse | kwOf | kwFor | kwWhile | kwDo | kwContinue | kwBreak | kwAsync
  | kwAwait | kwYield | kwThis | kwThrow | kwTry | kwCatch | kwFinally | kwFunctionStar
  | kwFunction | kwReturn | kwClass | kwStatic | kwExtends | kwNew
  -- Names, template text, and the end of the source.
  | identifier | templateString | endOfFile
deriving DecidableEq

namespace Kind

/-- The name under which a kind is listed in a token stream. -/
def tag : Kind → String
  | number => "Number"
  | bigInt => "BigInt"
  | string => "String"
  | regex => "Regex"
  | boolean => "Boolean"
  | null => "Null"
  | undefined => "Undefined"
  | semicolon => "Semicolon"
  | lBrace => "LBrace"
  | rBrace => "RBrace"
  | lBracket => "LBracket"
  | rBracket => "RBracket"
  | lParen => "LParen"
  | rParen => "RParen"
  | dot => "Dot"
  | comma => "Comma"
  | colon => "Colon"
  | hash => "Hash"
  | backtick => "Backtick"
  | arrow => "Arrow"
  | dollarBrace => "DollarBrace"
  | questionDot => "QuestionDot"
  | logicalAnd => "LogicalAnd"
  | logicalOrNullish => "LogicalOrNullish"
  | bitwiseOr => "BitwiseOr"
  | bitwiseAnd => "BitwiseAnd"
  | bitwiseXor => "BitwiseXor"
  | power => "Power"
  | comparison => "Comparison"
  | equality => "Equality"
  | assignment => "Assignment"
  | complexAssignment => "ComplexAssignment"
  | incrementDecrement => "IncrementDecrement"
  | bang => "Bang"
  | additive => "Additive"
  | multiplicative => "Multiplicative"
  | kwLetOrConst => "LetOrConst"
  | kwIf => "If"
  | kwElse => "Else"
  | kwOf => "Of"
  | kwFor => "For"
  | kwWhile => "While"
  | kwDo => "Do"
  | kwContinue => "Continue"
  | kwBreak => "Break"
  | kwAsync => "Async"
  | kwAwait => "Await"
  | kwYield => "Yield"
  | kwThis => "This"
  | kwThrow => "Throw"
  | kwTry => "Try"
  | kwCatch => "Catch"
  | kwFinally => "Finally"
  | kwFunctionStar => "FunctionStar"
  | kwFunction => "Function"
  | kwReturn => "Return"
  | kwClass => "Class"
  | kwStatic => "Static"
  | kwExtends => "Extends"
  | kwNew => "New"
  | identifier => "Identifier"
  | templateString => "TemplateString"
  | endOfFile => "EndOfFile"

/-- The name under which a kind appears in an error message. -/
def name : Kind → String
  | number => "number"
  | bigInt => "bigint"
  | string => "string"
  | regex => "regex"
  | boolean => "boolean"
  | null => "null"
  | undefined => "undefined"
  | semicolon => ";"
  | lBrace => "\x7b"
  | rBrace => "\x7d"
  | lBracket => "["
  | rBracket => "]"
  | lParen => "("
  | rParen => ")"
  | dot => "."
  | comma => ","
  | colon => ":"
  | hash => "#"
  | backtick => "`"
  | arrow => "=>"
  | dollarBrace => "$\x7b"
  | questionDot => "?."
  | logicalAnd => "&&"
  | logicalOrNullish => "LogicalOrAndNullishCoalescing"
  | bitwiseOr => "|"
  | bitwiseAnd => "&"
  | bitwiseXor => "^"
  | power => "PowerOperator"
  | comparison => "ComparisonOperator"
  | equality => "EqualityOperator"
  | assignment => "AssignmentOperator"
  | complexAssignment => "ComplexAssignmentOperator"
  | incrementDecrement => "IncrementDecrement"
  | bang => "UnaryOperator"
  | additive => "AdditiveOperator"
  | multiplicative => "MultiplicativeOperator"
  | kwLetOrConst => "VariableDeclaration"
  | kwIf => "if"
  | kwElse => "else"
  | kwOf => "of"
  | kwFor => "for"
  | kwWhile => "while"
  | kwDo => "do"
  | kwContinue => "continue"
  | kwBreak => "break"
  | kwAsync => "async"
  | kwAwait => "await"
  | kwYield => "yield"
  | kwThis => "this"
  | kwThrow => "throw"
  | kwTry => "try"
  | kwCatch => "catch"
  | kwFinally => "finally"
  | kwFunctionStar => "function*"
  | kwFunction => "function"
  | kwReturn => "return"
  | kwClass => "class"
  | kwStatic => "static"
  | kwExtends => "extends"
  | kwNew => "new"
  | identifier => "Identifier"
  | templateString => "TemplateLiteralString"
  | endOfFile => "EndOfFile"

/-- The reserved words, which may still name a property after a dot, in an object or in a class.
The generator form of `function` is not one word and is left out. -/
def isKeyword : Kind → Bool
  | boolean | null | undefined | kwLetOrConst | kwIf | kwElse | kwOf | kwFor | kwWhile | kwDo
  | kwContinue | kwBreak | kwAsync | kwAwait | kwYield | kwThis | kwThrow | kwTry | kwCatch
  | kwFinally | kwFunction | kwReturn | kwClass | kwStatic | kwExtends | kwNew => true
  | _ => false

/-- The kinds in front of which a `return` or a `yield` has no argument. -/
def endsArgument : Kind → Bool
  | semicolon | rBrace | rParen | rBracket | comma | endOfFile => true
  | _ => false

end Kind

end ScriptTree
