import ScriptTree.Token.Cursor

/-!
# Token streams

All tokens of a source by the lexical rules, up to and including the end token.
-/

namespace ScriptTree

/-- Reads on to the end of the source, behind the tokens already read (last one first). -/
def Cursor.tokensOnto (cursor : Cursor) (read : List Token) : Except SyntaxError (List Token) :=
  match h : cursor.next with
  | (.error e, _) => .error e
  | (.ok token, after) =>
    if hkind : token.kind = .endOfFile then .ok (token :: read).reverse
    else
      have := Cursor.next_length_lt h hkind
      after.tokensOnto (token :: read)
termination_by cursor.rest.length

/-- The tokens of a source, or its first lexical fault. -/
def tokenize (source : String) : Except SyntaxError (List Token) :=
  (Cursor.ofSource source).tokensOnto []

end ScriptTree
