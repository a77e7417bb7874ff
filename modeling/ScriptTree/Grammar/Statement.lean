import ScriptTree.Grammar.Class

/-!
# Statements

A semicolon behind a statement is consumed if it is there and is never required.
-/

namespace ScriptTree

open ScriptTree.Parser

/-- Whether a function declaration begins here: `function` with a name behind it, and perhaps
`async` in front of it. Reads ahead and consumes nothing. -/
def declaresFunction : Parser Bool := do
  let (next, after) ← tokenAt (← place)
  if ← sees .kwAsync then
    if next.kind == .kwFunction || next.kind == .kwFunctionStar then
      let (name, _) ← tokenAt after
      return name.kind == .identifier
    else return false
  else return next.kind == .identifier

namespace Grammar

variable (g : Grammar)

/-- An expression as a statement. -/
def expressionStatement : Parser Node := do
  let expression ← g.sequence
  let _ ← accept .semicolon
  return expression

/-- A variable with its value, if it has one, without the semicolon. -/
def variableDeclaration : Parser Node := do
  let keyword ← expect .kwLetOrConst
  let kind ← spelled keyword (VariableKind.ofText? keyword.text)
  let id ← identifier
  let value ← optionally .assignment (g.parse .sequence)
  return .variableDeclaration id value kind

/-- An expression in parentheses, as the condition of a statement. -/
def condition : Parser Node := do
  let _ ← expect .lParen
  let test ← g.parse .sequence
  let _ ← expect .rParen
  return test

def ifStatement : Parser Node := do
  let _ ← expect .kwIf
  let test ← g.condition
  let consequent ← g.innerStatement
  let alternate ← optionally .kwElse g.innerStatement
  return .ifStatement test consequent alternate

/-- The body of a `for` loop, which is always a block: a single statement is wrapped in one. -/
def loopBody : Parser Node := do
  if ← sees .lBrace then g.block else return .blockStatement [← g.innerStatement]

/-- An expression, unless a token of a kind comes first. -/
def sequenceUnless (ending : Kind) : Parser (Option Node) := do
  if ← sees ending then return none else some <$> g.parse .sequence

/-- A clause in the head of a `for` loop, missing if the token that ends it comes first. -/
def loopClause (ending : Kind) : Parser (Option Node) := do
  let clause ← g.sequenceUnless ending
  let _ ← expect ending
  return clause

/-- What stands first in the head of a `for` loop. -/
def loopStart : Parser (Option Node) := do
  match (← lookahead).kind with
  | .semicolon => return none
  | .kwLetOrConst => some <$> g.variableDeclaration
  | _ => some <$> g.parse .sequence

/-- A `for` loop over three clauses or over the elements of a value. -/
def forStatement : Parser Node := do
  let _ ← expect .kwFor
  let _ ← expect .lParen
  let init ← g.loopStart
  if ← sees .kwOf then
    match init with
    | none => unexpected
    | some left =>
      let _ ← advance
      let right ← g.parse .assignment
      let _ ← expect .rParen
      return .forOfStatement left right (← g.loopBody)
  else
    let _ ← expect .semicolon
    let test ← g.loopClause .semicolon
    let update ← g.loopClause .rParen
    return .forStatement init test update (← g.loopBody)

def whileStatement : Parser Node := do
  let _ ← expect .kwWhile
  let test ← g.condition
  return .whileStatement test (← g.innerStatement)

def doWhileStatement : Parser Node := do
  let _ ← expect .kwDo
  let body ← g.innerStatement
  let _ ← expect .kwWhile
  let test ← g.condition
  let _ ← accept .semicolon
  return .doWhileStatement body test

/-- A statement that is one word. -/
def wordStatement (node : Node) : Parser Node := do
  let _ ← advance
  let _ ← accept .semicolon
  return node

/-- What a `return` gives back, unless something follows that ends it. -/
def returnArgument : Parser (Option Node) := do
  if (← lookahead).kind.endsArgument then return none else some <$> g.parse .sequence

/-- A `return`, which may stand only in a function. -/
def returnStatement : Parser Node := do
  if (← context).inFunction then
    let _ ← expect .kwReturn
    let argument ← g.returnArgument
    let _ ← accept .semicolon
    return .returnStatement argument
  else reject (.returnOutsideFunction (← lookahead).span)

def throwStatement : Parser Node := do
  let _ ← expect .kwThrow
  let argument ← g.parse .sequence
  let _ ← accept .semicolon
  return .throwStatement argument

/-- The name that a handler gives to what was thrown, behind its parenthesis. -/
def catchParameter : Parser Node := do
  let param ← identifier
  let _ ← expect .rParen
  return param

/-- A handler with the name it gives to what was thrown, if it gives one. -/
def catchClause : Parser Node := do
  let param ← optionally .lParen catchParameter
  return .catchClause param (← g.block)

/-- A `try` with a handler, a final block, or both. -/
def tryStatement : Parser Node := do
  let _ ← expect .kwTry
  let body ← g.block
  let handler ← optionally .kwCatch g.catchClause
  let finalizer ← optionally .kwFinally g.block
  if handler.isNone && finalizer.isNone then
    reject (.missingHandler (← lookahead).span)
  else return .tryStatement body handler finalizer

/-- A statement by its first token, on its level of nesting. -/
def statementKind : Parser Node := do
  match (← lookahead).kind with
  | .lBrace => g.block
  | .kwLetOrConst =>
    let declaration ← g.variableDeclaration
    let _ ← accept .semicolon
    return declaration
  | .kwIf => g.ifStatement
  | .kwFunction | .kwFunctionStar | .kwAsync =>
    if ← declaresFunction then g.functionDeclaration else g.expressionStatement
  | .kwFor => g.forStatement
  | .kwWhile => g.whileStatement
  | .kwDo => g.doWhileStatement
  | .kwContinue => wordStatement .continueStatement
  | .kwBreak => wordStatement .breakStatement
  | .kwReturn => g.returnStatement
  | .kwClass => g.classDeclaration
  | .kwThrow => g.throwStatement
  | .kwTry => g.tryStatement
  | _ => g.expressionStatement

/-- A statement, one level deeper. -/
def statement : Parser Node :=
  nested g.statementKind

end Grammar

end ScriptTree
