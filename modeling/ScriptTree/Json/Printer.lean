import ScriptTree.Json.Basic
import ScriptTree.Number.Layout

/-!
# Printing JSON

A value is written in front of a given rest of text, in one of two styles: on a single line without
blanks, or with one item a line, two blanks deeper on each level. The empty array and the empty
object are written without a line break in both.
-/

namespace ScriptTree

/-- How the items of arrays and objects are set out. -/
inductive JsonStyle where
  | compact
  | indented
deriving DecidableEq

namespace JsonStyle

/-- What stands in front of an item on a nesting level. -/
def lineBreak : JsonStyle → Nat → List Char
  | compact, _ => []
  | indented, level => '\n' :: List.replicate (2 * level) ' '

/-- What stands between a member's name and its value. -/
def colon : JsonStyle → List Char
  | compact => [':']
  | indented => [':', ' ']

end JsonStyle

namespace Json

/-- A character inside a quoted text. Quotes, backslashes and control characters are escaped. -/
def escape (c : Char) : List Char :=
  if c = '\x22' then ['\\', '\x22']
  else if c = '\\' then ['\\', '\\']
  else if c = '\x08' then ['\\', 'b']
  else if c = '\x0c' then ['\\', 'f']
  else if c = '\n' then ['\\', 'n']
  else if c = '\r' then ['\\', 'r']
  else if c = '\t' then ['\\', 't']
  else if c.toNat < 32 then
    ['\\', 'u', '0', '0', Nat.digitChar (c.toNat / 16), Nat.digitChar (c.toNat % 16)]
  else [c]

/-- A quoted text in front of `rest`. -/
def quote (s : String) (rest : List Char) : List Char :=
  '\x22' :: s.toList.foldr (fun c r => escape c ++ r) ('\x22' :: rest)

mutual

/-- A value on a nesting level, in front of `rest`. -/
def write (style : JsonStyle) (level : Nat) : Json → List Char → List Char
  | null, rest => 'n' :: 'u' :: 'l' :: 'l' :: rest
  | bool true, rest => 't' :: 'r' :: 'u' :: 'e' :: rest
  | bool false, rest => 'f' :: 'a' :: 'l' :: 's' :: 'e' :: rest
  | integer n, rest => Nat.toDigits 10 n ++ rest
  | decimal x, rest => x.layout ++ rest
  | string s, rest => quote s rest
  | array [], rest => '[' :: ']' :: rest
  | array (item :: items), rest =>
    '[' :: (style.lineBreak (level + 1) ++
      write style (level + 1) item
        (writeItems style (level + 1) items (style.lineBreak level ++ ']' :: rest)))
  | object [], rest => '\x7b' :: '\x7d' :: rest
  | object ((name, value) :: members), rest =>
    '\x7b' :: (style.lineBreak (level + 1) ++
      quote name (style.colon ++ write style (level + 1) value
        (writeMembers style (level + 1) members (style.lineBreak level ++ '\x7d' :: rest))))

/-- Further items of an array, each behind a comma. -/
def writeItems (style : JsonStyle) (level : Nat) : List Json → List Char → List Char
  | [], rest => rest
  | item :: items, rest =>
    ',' :: (style.lineBreak level ++ write style level item (writeItems style level items rest))

/-- Further members of an object, each behind a comma. -/
def writeMembers (style : JsonStyle) (level : Nat) :
    List (String × Json) → List Char → List Char
  | [], rest => rest
  | (name, value) :: members, rest =>
    ',' :: (style.lineBreak level ++ quote name (style.colon ++
      write style level value (writeMembers style level members rest)))

end

/-- The text of a value. -/
def render (style : JsonStyle) (value : Json) : String :=
  String.ofList (value.write style 0 [])

end Json

end ScriptTree
