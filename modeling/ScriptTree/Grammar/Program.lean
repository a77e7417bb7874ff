import ScriptTree.Grammar.Statement

/-!
# Programs

`Grammar.upTo n` is the grammar in which constructs contain each other less than `n` deep: each
level uses the one below it for the parts of a construct. A production consumes a token before it
asks for a part, so no construct of a source nests deeper than the source is long, and `parse` gives
the grammar enough levels for the source at hand.
-/

namespace ScriptTree

open ScriptTree.Parser

namespace Grammar

/-- The production of each goal. -/
def production (g : Grammar) : Goal → Parser Node
  | .statement => g.statement
  | .sequence => g.sequence
  | .element => g.element
  | .assignment => g.assignment
  | .unary => g.unary
  | .power => g.power
  | .creation => g.creation

/-- A parser for constructs that contain each other less than `levels` deep. -/
def run (levels : Nat) (goal : Goal) : Parser Node :=
  match levels with
  | 0 => unfinished
  | levels + 1 => production ⟨levels, run levels⟩ goal

/-- The grammar of constructs that contain each other less than `levels` deep. -/
def upTo (levels : Nat) : Grammar :=
  ⟨levels, run levels⟩

/-- The next statement of a program, behind those already read (last one first). -/
def nextInProgram (g : Grammar) (body : List Node) : Parser (Turn (List Node) Node) := do
  if ← sees .endOfFile then return .done (.program body.reverse)
  else return .again ((← g.parse .statement) :: body)

/-- All statements up to the end of the source. -/
def program (g : Grammar) : Parser Node :=
  loop g.nextInProgram g.bound []

end Grammar

/-- How deep statements and operands may nest unless another limit is given. -/
def defaultLimit : Nat :=
  48

/-- Reads a program from a place on, with a grammar of a number of levels. -/
def Cursor.program (cursor : Cursor) (limit levels : Nat) : Except Interrupt Node :=
  match cursor.next with
  | (.error error, _) => .error (.rejected error)
  | (.ok token, after) =>
    match (Grammar.upTo levels).program ⟨limit, 0, false⟩ ⟨token, after⟩ with
    | .ok (node, _) => .ok node
    | .error interrupt => .error interrupt

/-- The tree of a source, or its first fault. With two levels more than the source has characters
no loop is left unfinished. A token that is misspelt is reported as one that was not expected. -/
def parse (source : String) (limit : Nat := defaultLimit) : Except SyntaxError Node :=
  let cursor := Cursor.ofSource source
  match cursor.program limit (cursor.rest.length + 2) with
  | .ok node => .ok node
  | .error (.rejected error) => .error error
  | .error (.misspelt token) => .error (.unexpectedToken token.kind token.span)
  | .error .unfinished => .error (.nestingTooDeep limit (.empty 0))

end ScriptTree
