import ScriptTree.Grammar.Parser
import ScriptTree.Node.Basic

/-!
# Grammar

The productions of the grammar refer to each other in circles. Here such a reference goes through a
`Grammar`, which has a parser for each construct that may contain itself, so every production is a
plain definition over the grammar that it may use for its parts.
-/

namespace ScriptTree

/-- The constructs that a part of another construct may be. -/
inductive Goal where
  | statement
  /-- Expressions with commas between them. -/
  | sequence
  /-- An expression without a comma, which may be a `yield`. -/
  | element
  | assignment
  /-- An operand with the operators in front of it. -/
  | unary
  /-- Operands with `**` between them. -/
  | power
  /-- A `new` expression. -/
  | creation
deriving DecidableEq

/-- What a production may use for its parts. -/
structure Grammar where
  /-- How many turns a repetition may take. -/
  bound : Nat
  parse : Goal → Parser Node

open ScriptTree.Parser

/-- A name. -/
def identifier : Parser Node := do
  let token ← expect .identifier
  return .identifier token.text

namespace Grammar

variable (g : Grammar)

/-- The next item in front of a closing token, behind the items already read (last one first). It is
the last one, or a comma follows it. -/
def nextItem (close : Kind) (item : Parser Node) (items : List Node) :
    Parser (Turn (List Node) (List Node)) := do
  if ← sees close then return .done items.reverse
  let node ← item
  unless ← sees close do
    let _ ← expect .comma
  return .again (node :: items)

/-- Items with commas between them up to a closing token, which is consumed. A comma may also follow
the last item. -/
def delimited (close : Kind) (item : Parser Node) : Parser (List Node) := do
  let items ← loop (nextItem close item) g.bound []
  let _ ← expect close
  return items

/-- A statement inside another one, which has to be there. -/
def innerStatement : Parser Node := do
  if ← sees .endOfFile then unexpected else g.parse .statement

/-- The next statement of a block, behind those already read (last one first). -/
def nextInBlock (body : List Node) : Parser (Turn (List Node) (List Node)) := do
  if ← sees .rBrace then return .done body.reverse
  if ← sees .endOfFile then mismatch .rBrace
  return .again ((← g.parse .statement) :: body)

/-- Statements in braces. -/
def block : Parser Node := do
  let _ ← expect .lBrace
  let body ← loop g.nextInBlock g.bound []
  let _ ← expect .rBrace
  return .blockStatement body

end Grammar

end ScriptTree
