/-!
# Where a source comes from

A command reads its source from its arguments, from a file, or from standard input. What the files
and the input hold is the business of a `Host`, so that reading is the same function of the host
whether the host is the system or a table.
-/

namespace ScriptTree

/-- A source with the name under which it is reported. -/
structure NamedSource where
  name : String
  text : String
deriving DecidableEq

/-- Why a source cannot be read. -/
inductive ReadError where
  | unreadableFile (file : String) (reason : String)
  | unreadableInput (reason : String)
deriving DecidableEq

def ReadError.message : ReadError → String
  | unreadableFile file reason => "Failed to read " ++ file ++ ": " ++ reason
  | unreadableInput reason => reason

/-- What a command reads from. A failure comes with the reason given for it. -/
structure Host (m : Type → Type) where
  file : String → m (Except String ByteArray)
  input : m (Except String ByteArray)

/-- The reason given for a file that does not exist. -/
def fileNotFound : String :=
  "No such file or directory (os error 2)"

/-- Bytes as text, which has to be UTF-8. -/
def decodeText (bytes : ByteArray) : Except String String :=
  match String.fromUTF8? bytes with
  | some text => .ok text
  | none => .error "stream did not contain valid UTF-8"

/-- The parts of a text between slashes. -/
def splitSlashes : List Char → List (List Char)
  | [] => [[]]
  | c :: cs =>
    if c = '/' then [] :: splitSlashes cs
    else match splitSlashes cs with
      | [] => [[c]]
      | part :: parts => (c :: part) :: parts

/-- Whether a path names standard input: it is a dash, behind which slashes and parts that are one
dot do not count. -/
def isStandardInput (file : String) : Bool :=
  match splitSlashes file.toList with
  | [] => false
  | first :: others => first == ['-'] && others.all fun part => part.isEmpty || part == ['.']

/-- Reads a source: code given in the arguments before a file, and standard input if there is
neither. -/
def readSource {m : Type → Type} [Monad m] (host : Host m) (file? code? : Option String) :
    m (Except ReadError NamedSource) := do
  match code?, file? with
  | some code, _ => return .ok ⟨"<eval>", code⟩
  | none, some file =>
    if isStandardInput file then fromInput
    else
      match (← host.file file) >>= decodeText with
      | .ok text => return .ok ⟨file, text⟩
      | .error reason => return .error (.unreadableFile file reason)
  | none, none => fromInput
where
  fromInput : m (Except ReadError NamedSource) := do
    match (← host.input) >>= decodeText with
    | .ok text => return .ok ⟨"<stdin>", text⟩
    | .error reason => return .error (.unreadableInput reason)

end ScriptTree
