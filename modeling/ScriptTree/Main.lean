import ScriptTree.Command.Run

/-!
# The program
-/

namespace ScriptTree

/-- The reason given for a failure of the system. -/
def failureReason : IO.Error → String
  | .noFileOrDirectory .. => fileNotFound
  | error => toString error

/-- The files and the standard input of the system. -/
def systemHost : Host IO where
  file path := do
    try
      return .ok (← IO.FS.readBinFile path)
    catch error =>
      return .error (failureReason error)
  input := do
    try
      return .ok (← (← IO.getStdin).readBinToEnd)
    catch error =>
      return .error (failureReason error)

end ScriptTree

/-- Runs the program with the arguments of the process. -/
def main (args : List String) : IO UInt32 := do
  let outcome ← ScriptTree.execute ScriptTree.systemHost args
  (← IO.getStdout).putStr outcome.output
  (← IO.getStderr).putStr outcome.errorOutput
  return outcome.exitCode.toUInt32
