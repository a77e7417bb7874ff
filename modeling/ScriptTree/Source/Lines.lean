/-!
# Lines of a source

Only a line feed ends a line. A `LineIndex` keeps the byte offset at which each line starts, so
that an offset is turned into a line and a column by one binary search.
-/

namespace ScriptTree

/-- Offsets just behind each line feed, when the text begins at `offset`. -/
def startsAfterBreaks (offset : Nat) : List Char → List UInt32
  | [] => []
  | c :: cs =>
    let next := offset + c.utf8Size
    if c = '\n' then UInt32.ofNat next :: startsAfterBreaks next cs else startsAfterBreaks next cs

/-- The start offsets of the lines of a source, in order; the first one is zero. -/
structure LineIndex where
  starts : Array UInt32

namespace LineIndex

/-- The line starts of a source. -/
def ofSource (source : String) : LineIndex :=
  ⟨(0 :: startsAfterBreaks 0 source.toList).toArray⟩

/-- Start of the line with this number, zero where there is none. -/
def start (index : LineIndex) (line : Nat) : UInt32 :=
  index.starts.getD line 0

/-- Halves `[low, high)` until one line is left, keeping `start low ≤ offset`, and `offset` before
the start of `high`. -/
def search (index : LineIndex) (offset : UInt32) (low high : Nat) : Nat :=
  if low + 1 < high then
    let middle := (low + high) / 2
    if index.start middle ≤ offset then index.search offset middle high
    else index.search offset low middle
  else low
termination_by high - low

/-- The last line that starts at the offset or before it. -/
def line (index : LineIndex) (offset : UInt32) : Nat :=
  index.search offset 0 index.starts.size

/-- Zero-based line and column of an offset; columns count bytes. -/
def lineCol (index : LineIndex) (offset : UInt32) : UInt32 × UInt32 :=
  let line := index.line offset
  (UInt32.ofNat line, offset - index.start line)

end LineIndex

end ScriptTree
