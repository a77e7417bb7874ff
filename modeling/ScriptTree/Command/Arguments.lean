/-!
# Arguments of the command line

A run names one of the commands `parse`, `tokens` and `demo`. Behind it stand a file or code, and
for `parse` the layout and the nesting limit. Flags for the log may stand on both sides of the
command and are counted apart.
-/

namespace ScriptTree

/-- What is wrong with the arguments. -/
inductive UsageError where
  | missingCommand
  | unknownCommand (name : String)
  | unknownOption (option : String)
  | repeatedOption (option : String)
  | missingValue (option : String)
  | unwantedValue (option : String)
  | invalidValue (option value : String)
  | codeWithFile
  | unexpectedArgument (argument : String)
deriving DecidableEq

def UsageError.message : UsageError → String
  | missingCommand => "a command is required: parse, tokens or demo"
  | unknownCommand name => "unrecognized command '" ++ name ++ "'"
  | unknownOption option => "unexpected option '" ++ option ++ "'"
  | repeatedOption option => "the option '" ++ option ++ "' cannot be used multiple times"
  | missingValue option => "a value is required for '" ++ option ++ "'"
  | unwantedValue option => "no value is allowed for '" ++ option ++ "'"
  | invalidValue option value => "invalid value '" ++ value ++ "' for '" ++ option ++ "'"
  | codeWithFile => "'--eval' cannot be used with a file"
  | unexpectedArgument argument => "unexpected argument '" ++ argument ++ "'"

/-- Options that are there or not. -/
inductive Flag where
  | verbose | logJson | compact | version
deriving DecidableEq

/-- Options with a value. -/
inductive Setting where
  | eval | maxDepth
deriving DecidableEq

/-- An option of the command line. -/
inductive Switch where
  | flag (flag : Flag)
  | setting (setting : Setting)
deriving DecidableEq

/-- The commands. -/
inductive Command where
  | parse | tokens | demo
deriving DecidableEq

def Command.ofName? (name : String) : Option Command :=
  if name = "parse" then some .parse
  else if name = "tokens" then some .tokens
  else if name = "demo" then some .demo
  else none

/-- The full name of an option. -/
def Switch.name : Switch → String
  | flag .verbose => "--verbose"
  | flag .logJson => "--log-json"
  | flag .compact => "--compact"
  | flag .version => "--version"
  | setting .eval => "--eval"
  | setting .maxDepth => "--max-depth"

/-- The letter of an option, if it has one. -/
def Switch.letter? : Switch → Option Char
  | flag .verbose => some 'v'
  | flag .version => some 'V'
  | setting .eval => some 'e'
  | _ => none

/-- The options in front of a command (`none`) or behind it. -/
def switches : Option Command → List Switch
  | none => [.flag .verbose, .flag .logJson, .flag .version]
  | some .parse =>
    [.flag .verbose, .flag .logJson, .flag .compact, .setting .eval, .setting .maxDepth]
  | some .tokens => [.flag .verbose, .flag .logJson, .setting .eval]
  | some .demo => [.flag .verbose, .flag .logJson]

/-- One piece of the arguments. -/
inductive Item where
  | flag (flag : Flag)
  | setting (setting : Setting) (value : String)
  | word (text : String)
deriving DecidableEq

/-- The options in an argument of letters, and the one whose value is still to come. An option with
a value takes the rest of the argument, without an equals sign in front, or else the next argument.
What stands behind the flag for the version does not matter. -/
def readLetters (level : Option Command) :
    List Char → Except UsageError (List Item × Option Setting)
  | [] => .ok ([], none)
  | c :: cs =>
    match (switches level).find? (·.letter? = some c) with
    | none => .error (.unknownOption (String.ofList ['-', c]))
    | some (.flag .version) => .ok ([.flag .version], none)
    | some (.flag flag) => do
      let (items, pending?) ← readLetters level cs
      return (.flag flag :: items, pending?)
    | some (.setting setting) =>
      match cs with
      | [] => .ok ([], some setting)
      | '=' :: value => .ok ([.setting setting (String.ofList value)], none)
      | value => .ok ([.setting setting (String.ofList value)], none)

/-- The option in an argument that begins with two dashes, which are left off here, unless its value
is still to come. -/
def readLong (level : Option Command) (arg : List Char) :
    Except UsageError (List Item × Option Setting) :=
  let name := "--" ++ String.ofList (arg.takeWhile (· != '='))
  match (switches level).find? (·.name = name), arg.dropWhile (· != '=') with
  | none, _ => .error (.unknownOption name)
  | some (.flag flag), [] => .ok ([.flag flag], none)
  | some (.flag _), _ :: _ => .error (.unwantedValue name)
  | some (.setting setting), [] => .ok ([], some setting)
  | some (.setting setting), _ :: value => .ok ([.setting setting (String.ofList value)], none)

/-- The pieces that an argument makes up, and the option whose value is still to come. -/
def readArgument (level : Option Command) (arg : String) :
    Except UsageError (List Item × Option Setting) :=
  match arg.toList with
  | '-' :: '-' :: cs => readLong level cs
  | '-' :: c :: cs => readLetters level (c :: cs)
  | _ => .ok ([.word arg], none)

/-- What the options on one side of the command say. -/
structure Options where
  verbosity : Nat := 0
  logJson : Bool := false
  compact : Bool := false
  code? : Option String := none
  limit? : Option Nat := none
  file? : Option String := none
deriving DecidableEq

/-- A number of at most 64 bits: digits, with a plus sign in front if one likes. -/
def limitOfText? (text : String) : Option Nat :=
  let digits := match text.toList with
    | '+' :: cs => cs
    | cs => cs
  if digits.isEmpty || !digits.all Char.isDigit then none
  else
    let value := digits.foldl (fun n c => 10 * n + (c.toNat - '0'.toNat)) 0
    if value < UInt64.size then some value else none

namespace Options

/-- Adds a piece. Only the flag for more of the log may come more than once. -/
def add (o : Options) : Item → Except UsageError Options
  | .flag .verbose => .ok { o with verbosity := o.verbosity + 1 }
  | .flag .version => .ok o
  | .flag .logJson =>
    if o.logJson then .error (.repeatedOption "--log-json") else .ok { o with logJson := true }
  | .flag .compact =>
    if o.compact then .error (.repeatedOption "--compact") else .ok { o with compact := true }
  | .setting .eval code =>
    if o.code?.isSome then .error (.repeatedOption "--eval") else .ok { o with code? := some code }
  | .setting .maxDepth value =>
    if o.limit?.isSome then .error (.repeatedOption "--max-depth")
    else match limitOfText? value with
      | some limit => .ok { o with limit? := some limit }
      | none => .error (.invalidValue "--max-depth" value)
  | .word file =>
    if o.file?.isSome then .error (.unexpectedArgument file)
    else if file = "" then .error (.invalidValue "FILE" file)
    else .ok { o with file? := some file }

end Options

/-- What the arguments ask for. -/
inductive Request where
  | version
  | run (command : Command) (before behind : Options)
deriving DecidableEq

/-- Whether an argument may be the value of the option in front of it: it may begin with a dash only
if it is nothing else. -/
def mayBeValue (arg : String) : Bool :=
  arg.toList.head? != some '-' || arg == "-"

/-- Reads the arguments behind a command. Two dashes end the options. -/
def readBehind (command : Command) (o : Options) (pending? : Option Setting) :
    List String → Except UsageError Options
  | [] => match pending? with
    | none => .ok o
    | some setting => .error (.missingValue (Switch.setting setting).name)
  | arg :: args => match pending? with
    | some setting =>
      if mayBeValue arg then do
        readBehind command (← o.add (.setting setting arg)) none args
      else .error (.missingValue (Switch.setting setting).name)
    | none =>
      if arg = "--" then args.foldlM (fun o file => o.add (.word file)) o
      else do
        let (items, pending?) ← readArgument (some command) arg
        readBehind command (← items.foldlM Options.add o) pending? args

/-- What only shows when all arguments are read: code excludes a file, and the demonstration takes
none. -/
def Options.check (o : Options) (command : Command) : Except UsageError Options :=
  match command, o.file? with
  | _, none => .ok o
  | .demo, some file => .error (.unexpectedArgument file)
  | _, some _ => if o.code?.isSome then .error .codeWithFile else .ok o

/-- Reads the arguments in front of the command, and with it those behind. -/
def readBefore (o : Options) : List String → Except UsageError Request
  | [] => .error .missingCommand
  | arg :: args =>
    if arg = "--" then .error (.unexpectedArgument (args.headD arg))
    else do
      match ← readArgument none arg with
      | ([.word name], _) =>
        match Command.ofName? name with
        | none => .error (.unknownCommand name)
        | some command => do
          let behind ← readBehind command {} none args
          return .run command o (← behind.check command)
      | (items, _) =>
        if items.contains (.flag .version) then return .version
        else readBefore (← items.foldlM Options.add o) args

/-- What the arguments of a run ask for. -/
def readArguments (args : List String) : Except UsageError Request :=
  readBefore {} args

end ScriptTree
