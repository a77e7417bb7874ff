import ScriptTree.Token.Cursor

/-!
# Scanning sessions

Reading a source step by step, in either mode, with one remembered place to go back to.
-/

namespace ScriptTree

/-- One step of a session. -/
inductive ScanStep where
  /-- Reads a token by the lexical rules. -/
  | next
  /-- Looks at the next token by the lexical rules and stays. -/
  | peek
  /-- Reads a piece of a template. -/
  | template
  /-- Remembers the place. -/
  | save
  /-- Goes back to the remembered place, which stays remembered. -/
  | restore
deriving DecidableEq

/-- The place reached and the place remembered. -/
structure Session where
  cursor : Cursor
  saved : Cursor

namespace Session

/-- A session at the start of a source, which is also the place remembered. -/
def ofSource (source : String) : Session :=
  ⟨.ofSource source, .ofSource source⟩

/-- What a step reads, if it reads anything, and the session after it. A fault does not end it. -/
def step (session : Session) : ScanStep → Option (Except SyntaxError Token) × Session
  | .next => (some session.cursor.next.1, { session with cursor := session.cursor.next.2 })
  | .peek => (some session.cursor.peek, session)
  | .template =>
    (some (.ok session.cursor.nextTemplate.1),
      { session with cursor := session.cursor.nextTemplate.2 })
  | .save => (none, { session with saved := session.cursor })
  | .restore => (none, { session with cursor := session.saved })

/-- The outcomes of the steps in order, each with the place reached by then. -/
def run (session : Session) : List ScanStep → List (Option (Except SyntaxError Token) × Cursor)
  | [] => []
  | step :: steps =>
    let (outcome, after) := session.step step
    (outcome, after.cursor) :: after.run steps

end Session

end ScriptTree
