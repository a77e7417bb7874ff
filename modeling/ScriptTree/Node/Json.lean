import ScriptTree.Json.Basic
import ScriptTree.Node.Fields

/-!
# Trees as JSON

A node is an object whose first member names its type and whose other members are its fields, in
order. A missing child is left out, or is null where the schema says so.
-/

namespace ScriptTree

/-- The value of a field, if it is written. -/
def Field.toJson? : Field Json → Option Json
  | flag value => some (.bool value)
  | text value => some (.string value)
  | number value => some (.ofBinary64 value)
  | child node => some node
  | children nodes => some (.array nodes)
  | optional node => node
  | nullable node => some (node.getD .null)

namespace Node

/-- The first member of a node's object, which tells the types apart. -/
def tag : Node → String
  | program .. => "Program"
  | numericLiteral .. => "NumericLiteral"
  | bigIntLiteral .. => "BigIntLiteral"
  | stringLiteral .. => "StringLiteral"
  | regExpLiteral .. => "RegExpLiteral"
  | booleanLiteral .. => "BooleanLiteral"
  | nullLiteral => "NullLiteral"
  | undefinedLiteral => "UndefinedLiteral"
  | templateLiteral .. => "TemplateLiteral"
  | templateElement .. => "TemplateElement"
  | arrayLiteral .. => "ArrayLiteral"
  | objectLiteral .. => "ObjectLiteral"
  | property .. => "Property"
  | identifier .. => "Identifier"
  | thisExpression => "ThisExpression"
  | privateName .. => "PrivateName"
  | binaryExpression .. => "BinaryExpression"
  | logicalExpression .. => "LogicalExpression"
  | unaryExpression .. => "UnaryExpression"
  | updateExpression .. => "UpdateExpression"
  | awaitExpression .. => "AwaitExpression"
  | yieldExpression .. => "YieldExpression"
  | assignmentExpression .. => "AssignmentExpression"
  | complexAssignmentExpression .. => "ComplexAssignmentExpression"
  | assignmentPattern .. => "AssignmentPattern"
  | sequenceExpression .. => "SequenceExpression"
  | parenthesizedExpression .. => "ParenthesizedExpression"
  | memberExpression .. => "MemberExpression"
  | optionalMemberExpression .. => "OptionalMemberExpression"
  | callExpression .. => "CallExpression"
  | optionalCallExpression .. => "OptionalCallExpression"
  | newExpression .. => "NewExpression"
  | arrowFunctionExpression .. => "ArrowFunctionExpression"
  | functionExpression .. => "FunctionExpression"
  | functionDeclaration .. => "FunctionDeclaration"
  | variableDeclaration .. => "VariableDeclaration"
  | blockStatement .. => "BlockStatement"
  | ifStatement .. => "IfStatement"
  | forStatement .. => "ForStatement"
  | forOfStatement .. => "ForOfStatement"
  | whileStatement .. => "WhileStatement"
  | doWhileStatement .. => "DoWhileStatement"
  | continueStatement => "ContinueStatement"
  | breakStatement => "BreakStatement"
  | returnStatement .. => "ReturnStatement"
  | throwStatement .. => "ThrowStatement"
  | tryStatement .. => "TryStatement"
  | catchClause .. => "CatchClause"
  | classDeclaration .. => "ClassDeclaration"
  | classBody .. => "ClassBody"
  | classProperty .. => "ClassProperty"
  | classPrivateProperty .. => "ClassPrivateProperty"
  | classMethodDefinition .. => "ClassMethodDefinition"

/-- A tree as a JSON value. -/
def toJson : Node → Json :=
  fold fun node fields =>
    .object (("type", .string node.tag) ::
      fields.filterMap fun field => field.2.toJson?.map (field.1, ·))

end Node

end ScriptTree
