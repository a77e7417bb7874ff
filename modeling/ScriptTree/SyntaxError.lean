import ScriptTree.Source.Span
import ScriptTree.Token.Kind

/-!
# Faults of a source

Reading stops at the first fault, so a source has either a tree or exactly one `SyntaxError`.
-/

namespace ScriptTree

/-- Why a source is refused. The span says where. -/
inductive SyntaxError where
  /-- No lexical rule reads anything at this character. -/
  | unsupportedCharacter (character : Char) (span : Span)
  /-- The grammar requires one kind of token here and another one stands there. -/
  | tokenMismatch (expected found : Kind) (span : Span)
  /-- The token cannot begin what has to stand here. -/
  | unexpectedToken (found : Kind) (span : Span)
  | returnOutsideFunction (span : Span)
  | invalidAssignmentTarget (span : Span)
  | invalidParameters (span : Span)
  | invalidAsync (span : Span)
  | invalidClassMember (span : Span)
  | missingHandler (span : Span)
  | invalidRegexFlag (flag : Char) (span : Span)
  /-- Statements or operands nest deeper than the limit. -/
  | nestingTooDeep (limit : Nat) (span : Span)
deriving DecidableEq

namespace SyntaxError

/-- The input that was refused. -/
def span : SyntaxError → Span
  | unsupportedCharacter _ span | tokenMismatch _ _ span | unexpectedToken _ span
  | returnOutsideFunction span | invalidAssignmentTarget span | invalidParameters span
  | invalidAsync span | invalidClassMember span | missingHandler span
  | invalidRegexFlag _ span | nestingTooDeep _ span => span

/-- A fixed code for each cause. -/
def code : SyntaxError → String
  | unsupportedCharacter .. => "UNSUPPORTED_TOKEN"
  | tokenMismatch .. => "TOKEN_MISMATCH"
  | unexpectedToken .. => "UNEXPECTED_TOKEN"
  | returnOutsideFunction .. => "INVALID_RETURN_STATEMENT"
  | invalidAssignmentTarget .. => "INVALID_LEFT_HAND_SIDE"
  | invalidParameters .. => "INVALID_FUNCTION_PARAMETERS"
  | invalidAsync .. => "INVALID_ASYNC"
  | invalidClassMember .. => "INVALID_CLASS_STATEMENT"
  | missingHandler .. => "MISSING_CATCH_OR_FINALLY"
  | invalidRegexFlag .. => "INVALID_REGEX_FLAG"
  | nestingTooDeep .. => "NESTING_TOO_DEEP"

/-- The sentence shown to the user. -/
def message : SyntaxError → String
  | unsupportedCharacter character _ => "Unsupported token " ++ character.toString
  | tokenMismatch expected found _ =>
    "Token does not match expected type. Expected: " ++ expected.name ++ " Got: " ++ found.name
  | unexpectedToken found _ => "Unexpected token: " ++ found.name
  | returnOutsideFunction _ => "Encountered return statement outside of function"
  | invalidAssignmentTarget _ => "Invalid left hand side of assignment operator"
  | invalidParameters _ => "Invalid function parameters"
  | invalidAsync _ => "Async keyword is not followed by a function declaration"
  | invalidClassMember _ => "Invalid statement in class declaration"
  | missingHandler _ => "Missing catch or finally clause"
  | invalidRegexFlag flag _ => "Invalid regular expression flag: " ++ flag.toString
  | nestingTooDeep limit _ => "Nesting exceeds the maximum depth of " ++ toString limit

end SyntaxError

end ScriptTree
