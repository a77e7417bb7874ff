import ScriptTree.Grammar.Expression

/-!
# Classes

A class has a name, perhaps another class that it extends, and members: properties and methods, each
of them public or private.
-/

namespace ScriptTree

open ScriptTree.Parser

/-- Whether `static` or `async` is the name of a member, and not a modifier, in front of a token. -/
def endsMemberName : Kind → Bool
  | .lParen | .assignment | .semicolon | .rBrace => true
  | _ => false

/-- Consumes a modifier in front of a member, and says whether it was there. -/
def acceptModifier (kind : Kind) : Parser Bool := do
  if ← sees kind then
    let (next, _) ← tokenAt (← place)
    if endsMemberName next.kind then return false
    let _ ← advance
    return true
  else return false

/-- The name of a member, which may be a reserved word. -/
def memberKey : Parser String := do
  let token ← lookahead
  if token.kind == .identifier || token.kind.isKeyword then
    let token ← advance
    return token.text
  else reject (.invalidClassMember token.span)

namespace Grammar

variable (g : Grammar)

/-- What stands behind the name of a property: its value, if it has one. -/
def classPropertyTail (isStatic isPrivate : Bool) (key : Node) : Parser Node := do
  let value ← optionally .assignment (g.parse .assignment)
  let _ ← accept .semicolon
  if isPrivate then return .classPrivateProperty key value isStatic
  else return .classProperty key value isStatic

/-- A member of a class. Only a method may be asynchronous or a generator. -/
def classMember : Parser Node := do
  let start := (← lookahead).span
  let isStatic ← acceptModifier .kwStatic
  let isAsync ← acceptModifier .kwAsync
  let generator ← acceptStar
  let isPrivate ← accept .hash
  let name ← memberKey
  let key : Node := if isPrivate then .privateName (.identifier name) else .identifier name
  if ← sees .lParen then
    let kind := if !isPrivate && name == "constructor" then .constructor else .method
    return .classMethodDefinition key isStatic kind (← g.method generator isAsync)
  else if isAsync || generator then
    reject (.invalidClassMember (start.merge (← lookahead).span))
  else g.classPropertyTail isStatic isPrivate key

/-- The next member of a class, behind those already read (last one first). Semicolons between
members are skipped. -/
def nextMember (members : List Node) : Parser (Turn (List Node) (List Node)) := do
  if ← sees .rBrace then return .done members.reverse
  if ← accept .semicolon then return .again members
  if ← sees .endOfFile then mismatch .rBrace
  return .again ((← g.classMember) :: members)

/-- Members in braces. -/
def classBody : Parser Node := do
  let _ ← expect .lBrace
  let members ← loop g.nextMember g.bound []
  let _ ← expect .rBrace
  return .classBody members

/-- A name with member accesses behind it, which a class may extend. -/
def heritage : Parser Node := do
  let base ← identifier
  g.suffixes false base

/-- A class, which may extend another one. -/
def classDeclaration : Parser Node := do
  let _ ← expect .kwClass
  let id ← identifier
  let superClass ← optionally .kwExtends g.heritage
  let body ← g.classBody
  return .classDeclaration id superClass body

end Grammar

end ScriptTree
