import ScriptTree.Node.Operator
import ScriptTree.Number.Binary64

/-!
# Syntax trees

Statements and expressions share one type, and an expression used as a statement is just that
expression. Nodes carry no spans, so equal programs have equal trees wherever they stand in a file.
-/

namespace ScriptTree

/-- A node of a syntax tree. -/
inductive Node where
  | program (body : List Node)
  -- Literals.
  | numericLiteral (value : Binary64)
  /-- The digits of a big integer, without the letter behind them. -/
  | bigIntLiteral (digits : String)
  | stringLiteral (value : String)
  | regExpLiteral (pattern flags : String)
  | booleanLiteral (value : Bool)
  | nullLiteral
  | undefinedLiteral
  /-- Inserted expressions and the pieces of text around them, of which there is one more. -/
  | templateLiteral (expressions quasis : List Node)
  | templateElement (value : String)
  | arrayLiteral (elements : List Node)
  | objectLiteral (properties : List Node)
  | property (key value : Node) (computed method : Bool)
  -- Names.
  | identifier (name : String)
  | thisExpression
  /-- A name with a hash sign in front, in a class body or behind a dot. -/
  | privateName (id : Node)
  -- Operations.
  | binaryExpression (left : Node) (operator : BinaryOperator) (right : Node)
  | logicalExpression (left : Node) (operator : LogicalOperator) (right : Node)
  | unaryExpression (operator : UnaryOperator) (argument : Node)
  /-- The operator stands in front of its operand or behind it. -/
  | updateExpression (operator : UpdateOperator) (leading : Bool) (argument : Node)
  | awaitExpression (argument : Node)
  | yieldExpression (argument : Option Node)
  /-- The plain assignment. -/
  | assignmentExpression (id : Node) (operator : AssignmentOperator) (value : Node)
  /-- Assignments that first combine the old value with the new one. -/
  | complexAssignmentExpression (id : Node) (operator : AssignmentOperator) (value : Node)
  /-- A parameter with a default. -/
  | assignmentPattern (left right : Node)
  | sequenceExpression (expressions : List Node)
  | parenthesizedExpression (body : Node)
  -- Member access and calls.
  | memberExpression (object member : Node) (computed : Bool)
  | optionalMemberExpression (object member : Node) (computed optional : Bool)
  | callExpression (callee : Node) (arguments : List Node)
  | optionalCallExpression (callee : Node) (arguments : List Node) (optional : Bool)
  | newExpression (callee : Node) (arguments : List Node)
  -- Functions.
  /-- The body is a block or a bare expression. -/
  | arrowFunctionExpression (generator isAsync : Bool) (params : List Node) (body : Node)
  | functionExpression (id : Option Node) (generator isAsync : Bool) (params : List Node)
    (body : Node)
  | functionDeclaration (id : Node) (generator isAsync : Bool) (params : List Node) (body : Node)
  -- Statements.
  | variableDeclaration (id : Node) (value : Option Node) (kind : VariableKind)
  | blockStatement (body : List Node)
  | ifStatement (test consequent : Node) (alternate : Option Node)
  | forStatement (init test update : Option Node) (body : Node)
  | forOfStatement (left right body : Node)
  | whileStatement (test body : Node)
  | doWhileStatement (body test : Node)
  | continueStatement
  | breakStatement
  | returnStatement (argument : Option Node)
  | throwStatement (argument : Node)
  | tryStatement (block : Node) (handler finalizer : Option Node)
  | catchClause (param : Option Node) (body : Node)
  -- Classes.
  | classDeclaration (id : Node) (superClass : Option Node) (body : Node)
  | classBody (body : List Node)
  | classProperty (key : Node) (value : Option Node) (isStatic : Bool)
  | classPrivateProperty (key : Node) (value : Option Node) (isStatic : Bool)
  /-- The value is a function expression. -/
  | classMethodDefinition (key : Node) (isStatic : Bool) (kind : MethodKind) (value : Node)

namespace Node

/-- The name of a node's type. -/
def typeName : Node → String
  | program .. => "Program"
  | numericLiteral .. => "NumericLiteral"
  | bigIntLiteral .. => "BigIntLiteral"
  | stringLiteral .. => "StringLiteral"
  | regExpLiteral .. => "RegExpLiteral"
  | booleanLiteral .. => "BooleanLiteral"
  | nullLiteral => "NullLiteral"
  | undefinedLiteral => "UndefinedLiteral"
  | templateLiteral .. => "TemplateLiteral"
  | templateElement .. => "TemplateElement"
  | arrayLiteral .. => "ArrayLiteral"
  | objectLiteral .. => "ObjectLiteral"
  | property .. => "Property"
  | identifier .. => "Identifier"
  | thisExpression => "ThisExpression"
  | privateName .. => "PrivateName"
  | binaryExpression .. => "BinaryExpression"
  | logicalExpression .. => "LogicalExpression"
  | unaryExpression .. => "UnaryExpression"
  | updateExpression .. => "UpdateExpression"
  | awaitExpression .. => "AwaitExpression"
  | yieldExpression .. => "YieldExpression"
  | assignmentExpression .. => "AssignmentExpression"
  | complexAssignmentExpression .. => "ComplexAssignmentExpression"
  | assignmentPattern .. => "AssignmentPattern"
  | sequenceExpression .. => "SequenceExpression"
  | parenthesizedExpression .. => "ParenthesizedExpression"
  | memberExpression .. => "MemberExpression"
  | optionalMemberExpression .. => "OptionalMemberExpression"
  | callExpression .. => "CallExpression"
  | optionalCallExpression .. => "OptionalCallExpression"
  | newExpression .. => "NewExpression"
  | arrowFunctionExpression .. => "ArrowFunctionExpression"
  | functionExpression .. => "FunctionExpression"
  | functionDeclaration .. => "FunctionDeclaration"
  | variableDeclaration .. => "VariableDeclaration"
  | blockStatement .. => "BlockStatement"
  | ifStatement .. => "IfStatement"
  | forStatement .. => "ForStatement"
  | forOfStatement .. => "ForOfStatement"
  | whileStatement .. => "WhileStatement"
  | doWhileStatement .. => "DoWhileStatement"
  | continueStatement => "ContinueStatement"
  | breakStatement => "BreakStatement"
  | returnStatement .. => "ReturnStatement"
  | throwStatement .. => "ThrowStatement"
  | tryStatement .. => "TryStatement"
  | catchClause .. => "CatchClause"
  | classDeclaration .. => "ClassDeclaration"
  | classBody .. => "ClassBody"
  | classProperty .. => "ClassProperty"
  | classPrivateProperty .. => "ClassPrivateProperty"
  | classMethodDefinition .. => "ClassMethodDefinition"

/-- The statements of a program, and none for any other node. -/
def body : Node → List Node
  | program body => body
  | _ => []

/-- Whether a node may stand on the left of an assignment or under `++` and `--`. -/
def isAssignmentTarget : Node → Bool
  | identifier .. | memberExpression .. => true
  | _ => false

end Node

end ScriptTree
