import ScriptTree.Token.Cursor

/-!
# Parsers

A `Parser` reads tokens off a source with one token of lookahead. Consuming a token reads the next
one at once, so a lexical fault behind a token is found before anything that the grammar would say
about that token. Repetition is bounded: a loop that does not come to its end within the bound is
`unfinished`, which is told apart from a rejected source, and so is a token whose text is none of
those that its kind stands for.
-/

namespace ScriptTree

/-- What is fixed while a construct is read. -/
structure Context where
  /-- How deep statements and operands may nest. -/
  limit : Nat
  /-- How deep the construct is nested. -/
  depth : Nat
  /-- Whether a `return` may stand here. -/
  inFunction : Bool

/-- How far the source is read. -/
structure Reading where
  /-- The next token. -/
  lookahead : Token
  /-- The place behind that token. -/
  cursor : Cursor

/-- Why reading came to a stop. -/
inductive Interrupt where
  /-- The source is refused. -/
  | rejected (error : SyntaxError)
  /-- The text of a token is none of those that its kind stands for. -/
  | misspelt (token : Token)
  /-- A bound on the number of steps was reached. -/
  | unfinished
deriving DecidableEq

/-- A reader of one construct. -/
def Parser (α : Type) : Type :=
  Context → Reading → Except Interrupt (α × Reading)

/-- What to do after one turn of a loop. -/
inductive Turn (σ α : Type) where
  | again (state : σ)
  | done (result : α)

namespace Parser

variable {α β σ : Type}

@[always_inline]
instance : Monad Parser where
  pure a := fun _ reading => .ok (a, reading)
  bind p f := fun context reading =>
    match p context reading with
    | .ok (a, next) => f a context next
    | .error interrupt => .error interrupt

/-- Refuses the source. -/
def reject (error : SyntaxError) : Parser α :=
  fun _ _ => .error (.rejected error)

/-- Gives up because a bound is reached. -/
def unfinished : Parser α :=
  fun _ _ => .error .unfinished

/-- The next token, which stays where it is. -/
def lookahead : Parser Token :=
  fun _ reading => .ok (reading.lookahead, reading)

/-- The place behind the next token. -/
def place : Parser Cursor :=
  fun _ reading => .ok (reading.cursor, reading)

/-- What is fixed here. -/
def context : Parser Context :=
  fun context reading => .ok (context, reading)

/-- Whether the next token is of a kind. -/
def sees (kind : Kind) : Parser Bool := do
  return (← lookahead).kind == kind

/-- The token at a place and the place behind it, without consuming anything. -/
def tokenAt (cursor : Cursor) : Parser (Token × Cursor) :=
  match cursor.next with
  | (.ok token, after) => pure (token, after)
  | (.error error, _) => reject error

/-- Consumes the next token. The one behind it is read by the lexical rules. -/
def advance : Parser Token := fun _ reading =>
  match reading.cursor.next with
  | (.ok token, after) => .ok (reading.lookahead, ⟨token, after⟩)
  | (.error error, _) => .error (.rejected error)

/-- Consumes the next token. The one behind it is read as template text. -/
def advanceInTemplate : Parser Token := fun _ reading =>
  let (token, after) := reading.cursor.nextTemplate
  .ok (reading.lookahead, ⟨token, after⟩)

/-- Refuses the next token because another kind has to stand there. -/
def mismatch (expected : Kind) : Parser α := do
  let found ← lookahead
  reject (.tokenMismatch expected found.kind found.span)

/-- Refuses the next token because it cannot begin anything here. -/
def unexpected : Parser α := do
  let found ← lookahead
  reject (.unexpectedToken found.kind found.span)

/-- Consumes a token of a kind and refuses any other. -/
def expect (kind : Kind) : Parser Token := do
  if ← sees kind then advance else mismatch kind

/-- Like `expect`, with template text behind the token. -/
def expectInTemplate (kind : Kind) : Parser Token := do
  if ← sees kind then advanceInTemplate else mismatch kind

/-- Consumes a token of a kind if it is there, and says whether it was. -/
def accept (kind : Kind) : Parser Bool := do
  if ← sees kind then
    let _ ← advance
    return true
  else return false

/-- What stands behind a token of a kind, if that token is there. -/
def optionally (kind : Kind) (p : Parser α) : Parser (Option α) := do
  if ← accept kind then some <$> p else return none

/-- What a token spells. -/
def spelled (token : Token) (value? : Option α) : Parser α :=
  match value? with
  | some value => pure value
  | none => fun _ _ => .error (.misspelt token)

/-- Reads one level deeper, unless that exceeds the limit. -/
def nested (p : Parser α) : Parser α := fun context reading =>
  if context.limit ≤ context.depth then
    .error (.rejected (.nestingTooDeep context.limit reading.lookahead.span))
  else p { context with depth := context.depth + 1 } reading

/-- Reads where a `return` may stand. -/
def inFunction (p : Parser α) : Parser α := fun context reading =>
  p { context with inFunction := true } reading

/-- Takes turns until one is the last, at most `bound` of them. -/
def loop (turn : σ → Parser (Turn σ α)) (bound : Nat) (state : σ) : Parser α :=
  match bound with
  | 0 => unfinished
  | bound + 1 => do
    match ← turn state with
    | .again state => loop turn bound state
    | .done result => pure result

end Parser

end ScriptTree
