import ScriptTree.Grammar.Literal

/-!
# Expressions

From the inside out: primary expressions, the member accesses and calls behind them, the operators
in front of an operand, the levels of binary operators, assignments, and sequences. A level of
binary operators groups to the left; `**` and assignments group to the right.
-/

namespace ScriptTree

open ScriptTree.Parser

/-- A property behind a dot: a name, a reserved word, or a private name. -/
def memberName : Parser Node := do
  if ← accept .hash then return .privateName (← identifier)
  if (← lookahead).kind.isKeyword then
    let word ← advance
    return .identifier word.text
  identifier

/-- Operators of one precedence, which group to the left. -/
structure OperatorLevel where
  kind : Kind
  /-- The node that an operator makes of its left and its right operand. -/
  join? : String → Option (Node → Node → Node)

namespace OperatorLevel

/-- A level of operators that always evaluate both sides. -/
def binary (kind : Kind) : OperatorLevel where
  kind := kind
  join? text := (BinaryOperator.ofText? text).map fun operator left right =>
    .binaryExpression left operator right

/-- A level of operators that may leave out their right side. -/
def logical (kind : Kind) : OperatorLevel where
  kind := kind
  join? text := (LogicalOperator.ofText? text).map fun operator left right =>
    .logicalExpression left operator right

/-- The levels from the loosest to the tightest. -/
def all : List OperatorLevel :=
  [logical .logicalOrNullish, logical .logicalAnd, binary .bitwiseOr, binary .bitwiseXor,
   binary .bitwiseAnd, binary .equality, binary .comparison, binary .additive,
   binary .multiplicative]

end OperatorLevel

namespace Grammar

variable (g : Grammar)

/-- A `yield`, with an argument unless something follows that ends one. -/
def yieldExpression : Parser Node := do
  let _ ← expect .kwYield
  if (← lookahead).kind.endsArgument then return .yieldExpression none
  return .yieldExpression (some (← g.parse .assignment))

/-- An expression without operators. -/
def primary : Parser Node := do
  match (← lookahead).kind with
  | .number => numericLiteral
  | .bigInt => bigIntLiteral
  | .string => stringLiteral
  | .regex => regexLiteral
  | .boolean =>
    let token ← advance
    return .booleanLiteral (token.text == "true")
  | .null =>
    let _ ← advance
    return .nullLiteral
  | .undefined =>
    let _ ← advance
    return .undefinedLiteral
  | .kwThis =>
    let _ ← advance
    return .thisExpression
  | .backtick => g.templateLiteral
  | .lBracket => g.arrayLiteral
  | .lBrace => g.objectLiteral
  | .lParen => g.parenthesized
  | .identifier =>
    let id ← identifier
    if ← sees .arrow then g.arrowFunction [id] false else return id
  | .kwFunction | .kwFunctionStar => g.functionExpression false
  | .kwAsync => g.asyncExpression
  | .kwYield => g.yieldExpression
  | _ => unexpected

/-- Arguments in parentheses. -/
def arguments : Parser (List Node) := do
  let _ ← expect .lParen
  g.delimited .rParen (g.parse .element)

/-- An expression in brackets, as a computed property. -/
def computedMember : Parser Node := do
  let _ ← expect .lBracket
  let member ← g.parse .sequence
  let _ ← expect .rBracket
  return member

/-- What may follow `?.`: arguments, a computed property, or a name. -/
def optionalSuffix (node : Node) : Parser Node := do
  match (← lookahead).kind with
  | .lParen => return .optionalCallExpression node (← g.arguments) true
  | .lBracket => return .optionalMemberExpression node (← g.computedMember) true true
  | _ => return .optionalMemberExpression node (← memberName) false true

/-- One member access or call behind an expression, if there is one. -/
def suffix (calls : Bool) (node : Node) : Parser (Turn Node Node) := do
  match (← lookahead).kind, calls with
  | .dot, _ =>
    let _ ← advance
    return .again (.memberExpression node (← memberName) false)
  | .lBracket, _ => return .again (.memberExpression node (← g.computedMember) true)
  | .questionDot, true =>
    let _ ← advance
    return .again (← g.optionalSuffix node)
  | .lParen, true => return .again (.callExpression node (← g.arguments))
  | _, _ => return .done node

/-- All member accesses behind an expression, and with `calls` also calls and `?.`. -/
def suffixes (calls : Bool) (node : Node) : Parser Node :=
  loop (g.suffix calls) g.bound node

/-- What a `new` creates, without what stands behind it. -/
def newBase : Parser Node := do
  if ← sees .kwNew then nested (g.parse .creation) else g.primary

/-- Arguments, if there are any. -/
def optionalArguments : Parser (List Node) := do
  if ← sees .lParen then g.arguments else return []

/-- A `new` expression. What it creates takes member accesses but no calls, so the first arguments
belong to `new`. -/
def creation : Parser Node := do
  let _ ← expect .kwNew
  let base ← g.newBase
  let callee ← g.suffixes false base
  let arguments ← g.optionalArguments
  return .newExpression callee arguments

/-- A `new` expression or a primary expression. -/
def base : Parser Node := do
  if ← sees .kwNew then g.creation else g.primary

/-- A primary expression with all that may stand behind it. -/
def suffixed : Parser Node := do
  let base ← g.base
  let expression ← g.suffixes true base
  if ← sees .incrementDecrement then
    if expression.isAssignmentTarget then
      let token ← advance
      let operator ← spelled token (UpdateOperator.ofText? token.text)
      return .updateExpression operator false expression
    else reject (.invalidAssignmentTarget (← lookahead).span)
  else return expression

/-- An operand with the operators in front of it, on its level of nesting. -/
def operand : Parser Node := do
  match (← lookahead).kind with
  | .bang | .additive =>
    let token ← advance
    let operator ← spelled token (UnaryOperator.ofText? token.text)
    return .unaryExpression operator (← g.parse .unary)
  | .incrementDecrement =>
    let token ← advance
    let operator ← spelled token (UpdateOperator.ofText? token.text)
    let argument ← g.parse .unary
    if argument.isAssignmentTarget then return .updateExpression operator true argument
    else reject (.invalidAssignmentTarget token.span)
  | .kwAwait =>
    let _ ← advance
    return .awaitExpression (← g.parse .unary)
  | _ => g.suffixed

/-- An operand with the operators in front of it, one level deeper. -/
def unary : Parser Node :=
  nested g.operand

/-- Operands with `**` between them, grouped to the right. -/
def power : Parser Node := do
  let left ← g.unary
  if ← sees .power then
    let token ← advance
    let operator ← spelled token (BinaryOperator.ofText? token.text)
    let right ← nested (g.parse .power)
    return .binaryExpression left operator right
  else return left

/-- The next operator of a level with its right operand, behind what stands to the left of it. -/
def nextOperand (level : OperatorLevel) (operand : Parser Node) (left : Node) :
    Parser (Turn Node Node) := do
  if ← sees level.kind then
    let token ← advance
    let join ← spelled token (level.join? token.text)
    return .again (join left (← operand))
  else return .done left

/-- Operands with the operators of a level between them, grouped to the left. -/
def leftGrouped (level : OperatorLevel) (operand : Parser Node) : Parser Node := do
  loop (nextOperand level operand) g.bound (← operand)

/-- Operands with binary and logical operators between them. -/
def operation : Parser Node :=
  OperatorLevel.all.foldr g.leftGrouped g.power

/-- An assignment to a name or a member, grouped to the right, or an operation. -/
def assignment : Parser Node := do
  let id ← g.operation
  let next ← lookahead
  if next.kind == .assignment || next.kind == .complexAssignment then
    if id.isAssignmentTarget then
      let token ← advance
      let operator ← spelled token (AssignmentOperator.ofText? token.text)
      let value ← nested (g.parse .element)
      if token.kind == .complexAssignment then
        return .complexAssignmentExpression id operator value
      else return .assignmentExpression id operator value
    else reject (.invalidAssignmentTarget next.span)
  else return id

/-- An assignment or a `yield`. -/
def element : Parser Node := do
  if ← sees .kwYield then g.yieldExpression else g.assignment

/-- The next expression of a sequence, behind those already read (last one first). -/
def nextInSequence (expressions : List Node) : Parser (Turn (List Node) Node) := do
  if ← accept .comma then return .again ((← g.element) :: expressions)
  else return .done (.sequenceExpression expressions.reverse)

/-- Expressions with commas between them; a single one stands for itself. -/
def sequence : Parser Node := do
  let first ← g.element
  if ← sees .comma then loop g.nextInSequence g.bound [first] else return first

end Grammar

end ScriptTree
