import ScriptTree.Grammar.Basic

/-!
# Functions

Parameters, bodies and the expressions that make functions. An opening parenthesis begins either an
expression in parentheses or the parameters of an arrow function: its contents are read as an
expression and turned into parameters if an arrow follows.
-/

namespace ScriptTree

open ScriptTree.Parser

/-- An expression as a parameter: a name, or a plain assignment to a name, which gives a default. -/
def arrowParam? : Node → Option Node
  | .identifier name => some (.identifier name)
  | .assignmentExpression (.identifier name) _ value =>
    some (.assignmentPattern (.identifier name) value)
  | _ => none

/-- The contents of parentheses as parameters. -/
def arrowParams? : Node → Option (List Node)
  | .sequenceExpression expressions => expressions.mapM arrowParam?
  | node => (arrowParam? node).map ([·])

namespace Grammar

variable (g : Grammar)

/-- A parameter with its default, if it has one. -/
def parameter : Parser Node := do
  let name ← identifier
  if ← accept .assignment then return .assignmentPattern name (← g.parse .assignment)
  return name

/-- Parameters in parentheses. -/
def parameters : Parser (List Node) := do
  let _ ← expect .lParen
  g.delimited .rParen g.parameter

/-- The block of a function. -/
def functionBody : Parser Node :=
  inFunction g.block

/-- The word that begins a function; says whether it makes a generator. -/
def functionKeyword : Parser Bool := do
  match (← lookahead).kind with
  | .kwFunction =>
    let _ ← advance
    return false
  | .kwFunctionStar =>
    let _ ← advance
    return true
  | _ => mismatch .kwFunction

/-- A function with a name, as a statement. -/
def functionDeclaration : Parser Node := do
  let isAsync ← accept .kwAsync
  let generator ← functionKeyword
  let id ← identifier
  let params ← g.parameters
  let body ← g.functionBody
  return .functionDeclaration id generator isAsync params body

/-- Parameters and body of a function that is an expression. -/
def functionTail (id : Option Node) (generator isAsync : Bool) : Parser Node := do
  let params ← g.parameters
  let body ← g.functionBody
  return .functionExpression id generator isAsync params body

/-- A name, if one stands here. -/
def identifier? : Parser (Option Node) := do
  if ← sees .identifier then some <$> identifier else return none

/-- A function, with a name or without, as an expression. -/
def functionExpression (isAsync : Bool) : Parser Node := do
  let generator ← functionKeyword
  let id ← identifier?
  g.functionTail id generator isAsync

/-- The body of an arrow function: a block or an expression. -/
def arrowBody : Parser Node := do
  if ← sees .lBrace then g.block else g.parse .element

/-- The arrow and the body behind given parameters. -/
def arrowFunction (params : List Node) (isAsync : Bool) : Parser Node := do
  let _ ← expect .arrow
  let body ← inFunction g.arrowBody
  return .arrowFunctionExpression false isAsync params body

/-- An expression in parentheses, or an arrow function with its parameters in parentheses. -/
def parenthesized : Parser Node := do
  let opening ← expect .lParen
  if ← accept .rParen then
    if ← sees .arrow then g.arrowFunction [] false else mismatch .arrow
  else
    let body ← g.parse .sequence
    let closing ← expect .rParen
    if ← sees .arrow then
      match arrowParams? body with
      | some params => g.arrowFunction params false
      | none => reject (.invalidParameters (opening.span.merge closing.span))
    else return .parenthesizedExpression body

/-- What `async` makes asynchronous: a function, or an arrow function with its parameters in
parentheses or with one bare parameter. -/
def asyncExpression : Parser Node := do
  let keyword ← expect .kwAsync
  let invalid : Parser Node := reject (.invalidAsync keyword.span)
  match (← lookahead).kind with
  | .kwFunction | .kwFunctionStar => g.functionExpression true
  | .lParen =>
    match ← g.parenthesized with
    | .arrowFunctionExpression generator _ params body =>
      return .arrowFunctionExpression generator true params body
    | _ => invalid
  | .identifier =>
    let param ← identifier
    if ← sees .arrow then g.arrowFunction [param] true else invalid
  | _ => invalid

end Grammar

end ScriptTree
