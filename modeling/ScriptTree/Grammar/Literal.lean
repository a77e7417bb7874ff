import ScriptTree.Grammar.Function

/-!
# Literals

Numbers, texts, regular expressions, templates, arrays and objects.
-/

namespace ScriptTree

open ScriptTree.Parser

/-- A number. -/
def numericLiteral : Parser Node := do
  let token ← advance
  let value ← spelled token (Decimal.ofText? token.text)
  return .numericLiteral value.toBinary64

/-- A big integer, of which the letter at the end is dropped. -/
def bigIntLiteral : Parser Node := do
  let token ← advance
  let digits := (token.text.toList.reverse.dropWhile (· == 'n')).reverse
  return .bigIntLiteral (String.ofList digits)

/-- What stands between the first and the last byte of a text. -/
def unquoted? (text : String) : Option String :=
  slice? text 1 (byteLength text.toList - 1)

/-- A quoted text, of which the quotes are dropped and nothing else is changed. -/
def stringLiteral : Parser Node := do
  let token ← advance
  let value ← spelled token (unquoted? token.text)
  return .stringLiteral value

/-- The letters that may stand behind a regular expression. -/
def regexFlags : List Char :=
  ['d', 'g', 'i', 'm', 's', 'u', 'y']

/-- The two parts of a regular expression. -/
structure RegexParts where
  pattern : String
  flags : String

/-- A text cut at its last slash, without what stands in front of the pattern. -/
def regexParts? (text : String) : Option RegexParts :=
  let close := (lastOffset? '/' text).getD 0
  let pattern := (slice? text 1 close).getD ""
  (slice? text (close + 1) (byteLength text.toList)).map (⟨pattern, ·⟩)

/-- A regular expression, cut at its last slash. -/
def regexLiteral : Parser Node := do
  let token ← expect .regex
  let parts ← spelled token (regexParts? token.text)
  match parts.flags.toList.find? (!regexFlags.contains ·) with
  | some flag => reject (.invalidRegexFlag flag token.span)
  | none => return .regExpLiteral parts.pattern parts.flags

/-- Consumes a star if it is there, and says whether it was. -/
def acceptStar : Parser Bool := do
  let token ← lookahead
  if token.kind == .multiplicative && token.text == "*" then
    let _ ← advance
    return true
  else return false

/-- What has been read of a template: the expressions and pieces of text, last ones first, and
whether a piece of text is still due. -/
structure TemplateParts where
  expressions : List Node
  quasis : List Node
  textDue : Bool

namespace TemplateParts

def addText (parts : TemplateParts) (text : String) : TemplateParts :=
  { parts with quasis := .templateElement text :: parts.quasis, textDue := false }

def addExpression (parts : TemplateParts) (expression : Node) : TemplateParts :=
  { parts with expressions := expression :: parts.expressions, textDue := true }

/-- The template; a piece of text that is still due is empty. -/
def toNode (parts : TemplateParts) : Node :=
  let parts := if parts.textDue then parts.addText "" else parts
  .templateLiteral parts.expressions.reverse parts.quasis.reverse

end TemplateParts

namespace Grammar

variable (g : Grammar)

/-- The next part of a template. -/
def templatePart (parts : TemplateParts) : Parser (Turn TemplateParts Node) := do
  match (← lookahead).kind with
  | .templateString =>
    let token ← advanceInTemplate
    return .again (parts.addText token.text)
  | .dollarBrace =>
    let token ← advance
    let _ ← expect .lBrace
    let expression ← g.parse .sequence
    let _ ← expectInTemplate .rBrace
    return .again ((parts.addText token.text).addExpression expression)
  | .backtick =>
    let _ ← advance
    return .done parts.toNode
  | _ => mismatch .backtick

/-- Text between backticks with expressions inserted into it. -/
def templateLiteral : Parser Node := do
  let _ ← expectInTemplate .backtick
  loop g.templatePart g.bound ⟨[], [], true⟩

/-- Expressions in brackets. -/
def arrayLiteral : Parser Node := do
  let _ ← expect .lBracket
  return .arrayLiteral (← g.delimited .rBracket (g.parse .element))

/-- The name of a property: a name, a text, a number or a reserved word. -/
def propertyKey : Parser Node := do
  let token ← lookahead
  match token.kind with
  | .identifier => identifier
  | .string => stringLiteral
  | .number => numericLiteral
  | kind =>
    if kind.isKeyword then
      let word ← advance
      return .identifier word.text
    else unexpected

/-- Whether `async` is a property of that name, and not a modifier, in front of a token. -/
def endsPropertyName : Kind → Bool
  | .colon | .lParen | .comma | .rBrace => true
  | _ => false

/-- Consumes `async` in front of a method. -/
def acceptAsyncMethod : Parser Bool := do
  if ← sees .kwAsync then
    let (next, _) ← tokenAt (← place)
    if endsPropertyName next.kind then return false
    let _ ← advance
    return true
  else return false

/-- Parameters and body of a method. -/
def method (generator isAsync : Bool) : Parser Node :=
  g.functionTail none generator isAsync

/-- Whether a name stands for a property and its value at once: it is a plain name, and the property
ends behind it. -/
def isShorthand (key : Node) (computed : Bool) (next : Kind) : Bool :=
  match key, next with
  | .identifier _, .comma | .identifier _, .rBrace => !computed
  | _, _ => false

/-- What stands behind the key of a member: the rest of a method, a colon and a value, or nothing if
the key is a name alone. -/
def propertyTail (isAsync generator computed : Bool) (key : Node) : Parser Node := do
  if (← sees .lParen) || isAsync || generator then
    return .property key (← g.method generator isAsync) computed true
  if isShorthand key computed (← lookahead).kind then
    return .property key key computed false
  let _ ← expect .colon
  return .property key (← g.parse .element) computed false

/-- A member of an object: a name with a value, a method, or a name alone. -/
def property : Parser Node := do
  let isAsync ← acceptAsyncMethod
  let generator ← acceptStar
  if ← accept .lBracket then
    let key ← g.parse .element
    let _ ← expect .rBracket
    g.propertyTail isAsync generator true key
  else
    let key ← propertyKey
    g.propertyTail isAsync generator false key

/-- Properties in braces. -/
def objectLiteral : Parser Node := do
  let _ ← expect .lBrace
  return .objectLiteral (← g.delimited .rBrace g.property)

end Grammar

end ScriptTree
