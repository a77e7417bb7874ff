/-!
# Byte spans

Offsets into a source count UTF-8 bytes. A `Span` is a half-open range of such offsets, and
`Span.text` is the part of the source that it covers.
-/

namespace ScriptTree

/-- Number of bytes that the characters take in UTF-8. -/
def byteLength (cs : List Char) : Nat :=
  cs.foldr (fun c n => c.utf8Size + n) 0

/-- What is left after the first `n` bytes, if a character ends there. -/
def dropBytes : Nat → List Char → Option (List Char)
  | 0, cs => some cs
  | _ + 1, [] => none
  | n + 1, c :: cs => if c.utf8Size ≤ n + 1 then dropBytes (n + 1 - c.utf8Size) cs else none

/-- The characters that make up the first `n` bytes, if a character ends there. -/
def takeBytes : Nat → List Char → Option (List Char)
  | 0, _ => some []
  | _ + 1, [] => none
  | n + 1, c :: cs =>
    if c.utf8Size ≤ n + 1 then (takeBytes (n + 1 - c.utf8Size) cs).map (c :: ·) else none

/-- The part of a text between two byte offsets, if the range is not reversed, does not leave the
text and cuts no character in two. -/
def slice? (text : String) (start stop : Nat) : Option String :=
  if start ≤ stop then
    ((dropBytes start text.toList).bind (takeBytes (stop - start))).map String.ofList
  else none

/-- The byte offset of the last occurrence of a character. -/
def lastOffset? (c : Char) (text : String) : Option Nat :=
  match text.toList.reverse.dropWhile (· != c) with
  | [] => none
  | _ :: front => some (byteLength front.reverse)

/-- Half-open range of byte offsets, each held in 32 bits. -/
structure Span where
  start : UInt32
  stop : UInt32
deriving DecidableEq

namespace Span

/-- The span between two offsets, reduced to 32 bits. -/
def ofOffsets (start stop : Nat) : Span :=
  ⟨UInt32.ofNat start, UInt32.ofNat stop⟩

/-- The span of no bytes at an offset. -/
def empty (offset : UInt32) : Span :=
  ⟨offset, offset⟩

/-- The smallest span that covers both. -/
def merge (a b : Span) : Span :=
  ⟨min a.start b.start, max a.stop b.stop⟩

/-- Number of bytes covered; a reversed span covers none. -/
def size (s : Span) : Nat :=
  s.stop.toNat - s.start.toNat

/-- The covered text. It is empty for a span that is reversed, that leaves the source or that cuts
a character in two. -/
def text (s : Span) (source : String) : String :=
  if s.start ≤ s.stop then
    match (dropBytes s.start.toNat source.toList).bind (takeBytes s.size) with
    | some cs => String.ofList cs
    | none => ""
  else ""

end Span

end ScriptTree
