import ScriptTree.Token.Kind
import ScriptTree.Token.Pattern

/-!
# Lexical rules

The rules are tried in order and the first one that reads anything wins, so their order decides
every ambiguity: a slash with another one behind it on its line opens a regular expression and is
not a division, `function*` comes before `function`, operators of several characters before their
beginnings, and the words of the language before names.
-/

namespace ScriptTree

/-- A pattern with the kind of token it makes; without a kind, what it reads is skipped. -/
structure Rule where
  kind? : Option Kind
  pattern : Pattern

namespace Rule

/-- A rule whose lexemes are left out of the token stream. -/
def skip (pattern : Pattern) : Rule :=
  ⟨none, pattern⟩

/-- A rule whose lexemes are tokens of a kind. -/
def make (kind : Kind) (pattern : Pattern) : Rule :=
  ⟨some kind, pattern⟩

/-- Blanks and comments. -/
def blanks : List Rule :=
  [skip (.run isBlank), skip .lineComment, skip .blockComment]

/-- Numbers, quoted texts and regular expressions. -/
def literals : List Rule :=
  [make .bigInt .bigInt,
   make .number .number,
   make .string (.quoted '\x27'),
   make .string (.quoted '\x22'),
   make .regex .regex]

/-- Brackets, separators and the like. -/
def punctuation : List Rule :=
  [make .semicolon (.oneOf [";"]),
   make .lBrace (.oneOf ["\x7b"]),
   make .rBrace (.oneOf ["\x7d"]),
   make .lBracket (.oneOf ["["]),
   make .rBracket (.oneOf ["]"]),
   make .lParen (.oneOf ["("]),
   make .rParen (.oneOf [")"]),
   make .dot (.oneOf ["."]),
   make .comma (.oneOf [","]),
   make .colon (.oneOf [":"]),
   make .hash (.oneOf ["#"]),
   make .backtick (.oneOf ["`"]),
   make .arrow (.oneOf ["=>"]),
   make .dollarBrace (.oneOf ["$\x7b"])]

/-- Operators, longer ones first. -/
def operators : List Rule :=
  [make .logicalAnd (.oneOf ["&&"]),
   make .logicalOrNullish (.oneOf ["||", "??"]),
   make .questionDot (.oneOf ["?."]),
   make .bitwiseOr (.oneOf ["|"]),
   make .bitwiseAnd (.oneOf ["&"]),
   make .bitwiseXor (.oneOf ["^"]),
   make .power (.oneOf ["**"]),
   make .comparison (.oneOf [">=", "<=", ">", "<"]),
   make .equality (.oneOf ["===", "!==", "==", "!="]),
   make .assignment (.oneOf ["="]),
   make .complexAssignment (.oneOf ["+=", "-=", "*=", "/="]),
   make .incrementDecrement (.oneOf ["++", "--"]),
   make .bang (.oneOf ["!"]),
   make .additive (.oneOf ["+", "-"]),
   make .multiplicative (.oneOf ["*", "/"])]

/-- Words of the language. -/
def words : List Rule :=
  [make .kwLetOrConst (.wholeWord ["let", "const"]),
   make .kwIf (.wholeWord ["if"]),
   make .kwElse (.wholeWord ["else"]),
   make .kwOf (.wholeWord ["of"]),
   make .kwFor (.wholeWord ["for"]),
   make .kwWhile (.wholeWord ["while"]),
   make .kwDo (.wholeWord ["do"]),
   make .kwContinue (.wholeWord ["continue"]),
   make .kwBreak (.wholeWord ["break"]),
   make .kwAsync (.wholeWord ["async"]),
   make .kwAwait (.wholeWord ["await"]),
   make .kwYield (.wholeWord ["yield"]),
   make .kwThis (.wholeWord ["this"]),
   make .kwThrow (.wholeWord ["throw"]),
   make .kwTry (.wholeWord ["try"]),
   make .kwCatch (.wholeWord ["catch"]),
   make .kwFinally (.wholeWord ["finally"]),
   make .kwFunctionStar .functionStar,
   make .kwFunction (.wholeWord ["function"]),
   make .kwReturn (.wholeWord ["return"]),
   make .boolean (.wholeWord ["true", "false"]),
   make .kwClass (.wholeWord ["class"]),
   make .kwStatic (.wholeWord ["static"]),
   make .kwExtends (.wholeWord ["extends"]),
   make .null (.wholeWord ["null"]),
   make .undefined (.wholeWord ["undefined"]),
   make .kwNew (.wholeWord ["new"])]

/-- All rules in the order in which they are tried. -/
def table : List Rule :=
  blanks ++ literals ++ punctuation ++ operators ++ words ++ [make .identifier .identifier]

/-- The kind and length of what the first matching rule reads. -/
def first? (cs : List Char) : Option (Option Kind × Nat) :=
  table.findSome? fun rule => (rule.pattern.length? cs).map (rule.kind?, ·)

/-- What a rule reads is never empty. -/
theorem pos_of_first? {cs : List Char} {kind? : Option Kind} {n : Nat}
    (h : first? cs = some (kind?, n)) : 0 < n := by
  obtain ⟨rule, -, hrule⟩ := List.exists_of_findSome?_eq_some h
  obtain ⟨m, hm, hmn⟩ := Option.map_eq_some_iff.1 hrule
  cases hmn
  exact rule.pattern.length_pos hm

end Rule

end ScriptTree
