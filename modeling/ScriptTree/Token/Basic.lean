import ScriptTree.Source.Span
import ScriptTree.Token.Kind

/-!
# Tokens
-/

namespace ScriptTree

/-- A token: its kind, the exact text it was read from, and where that text stands. -/
structure Token where
  kind : Kind
  text : String
  span : Span
deriving DecidableEq

/-- The token that stands for the end of a source, at its byte length. -/
def Token.endOfFile (offset : Nat) : Token :=
  ⟨.endOfFile, "", .empty (.ofNat offset)⟩

end ScriptTree
