import ScriptTree.Command.Source
import ScriptTree.Source.Lines
import ScriptTree.SyntaxError

/-!
# Reports

How a fault of a source is shown: what is wrong, where in lines and columns counted from one, and
which bytes to point at.
-/

namespace ScriptTree

/-- Bytes to point at, with a remark. -/
structure Label where
  offset : Nat
  length : Nat
  text : String
deriving DecidableEq

/-- A fault as it is shown to the user. -/
structure Report where
  message : String
  code : String
  help : String
  labels : List Label
deriving DecidableEq

/-- The report of a fault in a source. -/
def SyntaxError.report (error : SyntaxError) (source : NamedSource) : Report :=
  let (line, column) := (LineIndex.ofSource source.text).lineCol error.span.start
  { message := error.message
    code := error.code
    help := "at " ++ source.name ++ ":" ++ toString (line + 1).toNat ++ ":" ++
      toString (column + 1).toNat
    labels := [⟨error.span.start.toNat, error.span.size, "here"⟩] }

/-- The text of a report. -/
def Report.text (report : Report) : String :=
  report.code ++ "\n\n  " ++ report.message ++ "\n  help: " ++ report.help ++ "\n"

end ScriptTree
