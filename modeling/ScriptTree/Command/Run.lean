import ScriptTree.Command.Arguments
import ScriptTree.Command.Report
import ScriptTree.Grammar.Program
import ScriptTree.Json.Printer
import ScriptTree.Node.Json
import ScriptTree.Token.Stream

/-!
# Running commands

A run reads its arguments and its source, and ends with an exit code and what it writes. Arguments
that cannot be used end it with code 2, a source that cannot be read or has a fault with code 1.
-/

namespace ScriptTree

/-- How a run ends. -/
structure Outcome where
  exitCode : UInt8
  output : String
  errorOutput : String
deriving DecidableEq

namespace Outcome

def success (output : String) : Outcome :=
  ⟨0, output, ""⟩

def failure (message : String) : Outcome :=
  ⟨1, "", message⟩

def misuse (error : UsageError) : Outcome :=
  ⟨2, "", "error: " ++ error.message ++ "\n"⟩

end Outcome

/-- The program's name and version. -/
def versionText : String :=
  "tern 0.1.0\n"

/-- The source that the demonstration parses. -/
def demoSource : NamedSource where
  name := "<demo>"
  text := "class Counter extends Base \x7b
  #count = 0;
  static label = \"counter\";

  constructor(start = 0) \x7b
    this.#count = start;
  \x7d

  *values(limit) \x7b
    for (let i = 0; i < limit; i++) \x7b
      yield this.#count + i;
    \x7d
  \x7d

  async fetch(url) \x7b
    try \x7b
      const response = await load(url);
      return response?.body ?? `empty $\x7burl\x7d`;
    \x7d catch (e) \x7b
      throw new Error(e);
    \x7d
  \x7d
\x7d

const double = (x) => x * 2;
for (const n of [1, 2, 3]) \x7b
  console.log(double(n) ** 2, /ab+c/gi);
\x7d
"

/-- Writes the tree of a source. -/
def runParse (source : NamedSource) (limit : Nat) (style : JsonStyle) : Outcome :=
  match parse source.text limit with
  | .ok node => .success (node.toJson.render style ++ "\n")
  | .error error => .failure (error.report source).text

/-- Writes a line for each token of a source: its kind, a tab and its text. -/
def runTokens (source : NamedSource) : Outcome :=
  match tokenize source.text with
  | .ok tokens =>
    .success (String.join (tokens.map fun token => token.kind.tag ++ "\t" ++ token.text ++ "\n"))
  | .error error => .failure (error.report source).text

/-- Runs a command on its source. -/
def Command.run (command : Command) (options : Options) (source : NamedSource) : Outcome :=
  match command with
  | .parse =>
    let style := if options.compact then JsonStyle.compact else .indented
    runParse source (options.limit?.getD defaultLimit) style
  | .tokens => runTokens source
  | .demo => runParse source defaultLimit .indented

/-- The log of a run, which is empty unless it is asked for. -/
def logText (verbosity : Nat) (source : NamedSource) : String :=
  if verbosity = 0 then ""
  else
    let bytes := toString source.text.utf8ByteSize
    "DEBUG read source name=" ++ source.name ++ " bytes=" ++ bytes ++ "\n"

/-- The source of a command. -/
def Command.source {m : Type → Type} [Monad m] (host : Host m) (command : Command)
    (options : Options) : m (Except ReadError NamedSource) :=
  match command with
  | .demo => pure (.ok demoSource)
  | .parse | .tokens => readSource host options.file? options.code?

/-- A run of the program with given arguments. -/
def execute {m : Type → Type} [Monad m] (host : Host m) (args : List String) : m Outcome := do
  match readArguments args with
  | .error error => return .misuse error
  | .ok .version => return .success versionText
  | .ok (.run command before behind) =>
    match ← command.source host behind with
    | .error error => return .failure (error.message ++ "\n")
    | .ok source =>
      let outcome := command.run behind source
      let log := logText (before.verbosity + behind.verbosity) source
      return { outcome with errorOutput := log ++ outcome.errorOutput }

end ScriptTree
