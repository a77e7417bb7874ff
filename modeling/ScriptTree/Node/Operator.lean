/-!
# Operators and kinds of declarations

Each is a closed set whose members are spelled in one way, both in a source and in the tree's text.
-/

namespace ScriptTree

/-- How a variable is declared. -/
inductive VariableKind where
  | letBinding | constBinding
deriving DecidableEq

namespace VariableKind

def text : VariableKind → String
  | letBinding => "let"
  | constBinding => "const"

def all : List VariableKind :=
  [letBinding, constBinding]

/-- The kind that a word spells. -/
def ofText? (text : String) : Option VariableKind :=
  all.find? (·.text = text)

end VariableKind

/-- What a class method is for. -/
inductive MethodKind where
  | constructor | method
deriving DecidableEq

namespace MethodKind

def text : MethodKind → String
  | constructor => "constructor"
  | method => "method"

end MethodKind

/-- Operators that always evaluate both sides. -/
inductive BinaryOperator where
  | add | sub | mul | div | pow
  | eq | ne | strictEq | strictNe
  | lt | le | gt | ge
  | bitOr | bitXor | bitAnd
deriving DecidableEq

namespace BinaryOperator

def text : BinaryOperator → String
  | add => "+"
  | sub => "-"
  | mul => "*"
  | div => "/"
  | pow => "**"
  | eq => "=="
  | ne => "!="
  | strictEq => "==="
  | strictNe => "!=="
  | lt => "<"
  | le => "<="
  | gt => ">"
  | ge => ">="
  | bitOr => "|"
  | bitXor => "^"
  | bitAnd => "&"

def all : List BinaryOperator :=
  [add, sub, mul, div, pow, eq, ne, strictEq, strictNe, lt, le, gt, ge, bitOr, bitXor, bitAnd]

/-- The operator that a text spells. -/
def ofText? (text : String) : Option BinaryOperator :=
  all.find? (·.text = text)

end BinaryOperator

/-- Operators that may leave out their right side. -/
inductive LogicalOperator where
  | and | or | nullish
deriving DecidableEq

namespace LogicalOperator

def text : LogicalOperator → String
  | and => "&&"
  | or => "||"
  | nullish => "??"

def all : List LogicalOperator :=
  [and, or, nullish]

/-- The operator that a text spells. -/
def ofText? (text : String) : Option LogicalOperator :=
  all.find? (·.text = text)

end LogicalOperator

/-- Operators in front of one operand. -/
inductive UnaryOperator where
  | not | plus | minus
deriving DecidableEq

namespace UnaryOperator

def text : UnaryOperator → String
  | not => "!"
  | plus => "+"
  | minus => "-"

def all : List UnaryOperator :=
  [not, plus, minus]

/-- The operator that a text spells. -/
def ofText? (text : String) : Option UnaryOperator :=
  all.find? (·.text = text)

end UnaryOperator

/-- Operators that count a variable up or down. -/
inductive UpdateOperator where
  | increment | decrement
deriving DecidableEq

namespace UpdateOperator

def text : UpdateOperator → String
  | increment => "++"
  | decrement => "--"

def all : List UpdateOperator :=
  [increment, decrement]

/-- The operator that a text spells. -/
def ofText? (text : String) : Option UpdateOperator :=
  all.find? (·.text = text)

end UpdateOperator

/-- Operators that store a value. -/
inductive AssignmentOperator where
  | assign | addAssign | subAssign | mulAssign | divAssign
deriving DecidableEq

namespace AssignmentOperator

def text : AssignmentOperator → String
  | assign => "="
  | addAssign => "+="
  | subAssign => "-="
  | mulAssign => "*="
  | divAssign => "/="

def all : List AssignmentOperator :=
  [assign, addAssign, subAssign, mulAssign, divAssign]

/-- The operator that a text spells. -/
def ofText? (text : String) : Option AssignmentOperator :=
  all.find? (·.text = text)

end AssignmentOperator

end ScriptTree
