import ScriptTree.SyntaxError
import ScriptTree.Token.Basic
import ScriptTree.Token.Rule

/-!
# Reading tokens

A `Cursor` is a place in a source: its byte offset and the text from there on. `Cursor.next` reads a
token by the lexical rules. The text between backticks is free, so there the grammar reads with
`Cursor.nextTemplate` instead.

Main statement: `Cursor.next_length_lt`, a token other than the end of the source leaves less text.
-/

namespace ScriptTree

/-- A place in a source. -/
structure Cursor where
  /-- Number of bytes in front of the cursor. -/
  offset : Nat
  /-- The text behind the cursor. -/
  rest : List Char

/-- Length of template text: it runs to a backtick, to `${` or to the end, and a backslash keeps the
character behind it from ending it. -/
def templateLength : List Char → Nat
  | [] => 0
  | '\x60' :: _ => 0
  | '$' :: '\x7b' :: _ => 0
  | '\\' :: _ :: cs => templateLength cs + 2
  | _ :: cs => templateLength cs + 1

namespace Cursor

/-- The start of a source. -/
def ofSource (source : String) : Cursor :=
  ⟨0, source.toList⟩

/-- Whether nothing is left to read. -/
def isAtEnd (cursor : Cursor) : Bool :=
  cursor.rest.isEmpty

/-- The place `n` characters further on. -/
def skip (cursor : Cursor) (n : Nat) : Cursor :=
  ⟨cursor.offset + byteLength (cursor.rest.take n), cursor.rest.drop n⟩

/-- The token of a kind that the next `n` characters make up. -/
def token (cursor : Cursor) (kind : Kind) (n : Nat) : Token :=
  ⟨kind, String.ofList (cursor.rest.take n), .ofOffsets cursor.offset (cursor.skip n).offset⟩

/-- Moving on in a text that is not at its end leaves less of it. -/
theorem skip_length_lt {cursor : Cursor} {c : Char} {cs : List Char} {n : Nat}
    (hrest : cursor.rest = c :: cs) (hn : 0 < n) :
    (cursor.skip n).rest.length < cursor.rest.length := by
  simp [skip, hrest]
  omega

/-- The next token by the lexical rules, and the place behind it. At the end of the source that is
the end token, however often it is asked for. Where no rule reads anything, the place is in front of
the refused character. -/
def next (cursor : Cursor) : Except SyntaxError Token × Cursor :=
  match hrest : cursor.rest with
  | [] => (.ok (.endOfFile cursor.offset), cursor)
  | c :: _ =>
    match hrule : Rule.first? cursor.rest with
    | some (some kind, n) => (.ok (cursor.token kind n), cursor.skip n)
    | some (none, n) =>
      have := skip_length_lt hrest (Rule.pos_of_first? hrule)
      (cursor.skip n).next
    | none =>
      let span := .ofOffsets cursor.offset (cursor.skip 1).offset
      (.error (.unsupportedCharacter c span), cursor)
termination_by cursor.rest.length

/-- The next token, without moving. -/
def peek (cursor : Cursor) : Except SyntaxError Token :=
  cursor.next.1

/-- The next piece of a template, and the place behind it: a backtick that closes it, a brace that
closes an inserted expression, or text. Text in front of an insertion is a token of the kind
`dollarBrace`; the dollar sign is passed over and the brace is left to the lexical rules. -/
def nextTemplate (cursor : Cursor) : Token × Cursor :=
  match cursor.rest with
  | [] => (.endOfFile cursor.offset, cursor)
  | '\x60' :: _ => (cursor.token .backtick 1, cursor.skip 1)
  | '\x7d' :: _ => (cursor.token .rBrace 1, cursor.skip 1)
  | _ =>
    let n := templateLength cursor.rest
    match cursor.rest.drop n with
    | '$' :: '\x7b' :: _ => (cursor.token .dollarBrace n, cursor.skip (n + 1))
    | _ => (cursor.token .templateString n, cursor.skip n)

/-- A token other than the end of the source leaves less text than there was. -/
theorem next_length_lt {cursor after : Cursor} {token : Token}
    (h : cursor.next = (.ok token, after)) (hkind : token.kind ≠ .endOfFile) :
    after.rest.length < cursor.rest.length := by
  fun_induction next cursor with
  | case1 cursor hrest =>
    cases h
    exact absurd rfl hkind
  | case2 cursor c cs hrest kind n hrule =>
    cases h
    exact skip_length_lt hrest (Rule.pos_of_first? hrule)
  | case3 cursor c cs hrest n hrule hlt ih => exact Nat.lt_trans (ih h) hlt
  | case4 => cases h

end Cursor

end ScriptTree
