/-!
# Lexical patterns

A `Pattern` looks at the front of a text and says how many characters of it form a lexeme, which are
never none. Repetitions take as much as they can, so each pattern has at most one answer.
-/

namespace ScriptTree

/-- Blank characters: space, tab, line feed, vertical tab, form feed and carriage return. -/
def isBlank (c : Char) : Bool :=
  c == ' ' || c == '\t' || c == '\n' || c == '\x0b' || c == '\x0c' || c == '\r'

/-- The characters that may not follow a word of the language. -/
def isWordChar (c : Char) : Bool :=
  c.isAlphanum || c == '_'

/-- The characters that may begin a name. -/
def isNameStart (c : Char) : Bool :=
  c.isAlpha || c == '_' || c == '$'

/-- The characters that may continue a name. -/
def isNameChar (c : Char) : Bool :=
  isWordChar c || c == '$'

/-- Length of the longest run of characters of a class at the front of a text. -/
def runLength (p : Char → Bool) (cs : List Char) : Nat :=
  (cs.takeWhile p).length

/-- Length of the first of the words that the text begins with. -/
def firstWord? (words : List (List Char)) (cs : List Char) : Option Nat :=
  words.findSome? fun w => if w.isPrefixOf cs then some w.length else none

/-- Like `firstWord?`, for words that end where no word character follows. -/
def firstWholeWord? (words : List (List Char)) (cs : List Char) : Option Nat :=
  words.findSome? fun w =>
    if w.isPrefixOf cs && !(cs.drop w.length).head?.any isWordChar then some w.length else none

/-- Length of a comment from behind its opening `/*` to the end of the first `*/`. -/
def blockCommentTail? : List Char → Option Nat
  | [] => none
  | '*' :: '/' :: _ => some 2
  | _ :: cs => (blockCommentTail? cs).map (· + 1)

/-- Length of `.digits` at the front of a text, zero if no digit follows the dot. -/
def fractionLength : List Char → Nat
  | '.' :: cs => match runLength Char.isDigit cs with
    | 0 => 0
    | n + 1 => n + 2
  | _ => 0

/-- Length of digits with an optional sign at the front of a text, zero if there is no digit. -/
def signedDigitsLength : List Char → Nat
  | [] => 0
  | c :: cs =>
    if c == '+' || c == '-' then match runLength Char.isDigit cs with
      | 0 => 0
      | n + 1 => n + 2
    else runLength Char.isDigit (c :: cs)

/-- Length of an exponent at the front of a text, zero if it has no digit. -/
def exponentLength : List Char → Nat
  | [] => 0
  | c :: cs =>
    if c == 'e' || c == 'E' then match signedDigitsLength cs with
      | 0 => 0
      | n + 1 => n + 2
    else 0

/-- Length of a quoted text behind its opening quote: it runs to the last quote on the line. -/
def quotedTail? (quote : Char) (cs : List Char) : Option Nat :=
  match ((cs.takeWhile (· != '\n')).reverse.dropWhile (· != quote)).length with
  | 0 => none
  | n + 1 => some (n + 1)

/-- Length of a regular expression's body: it runs to the first slash that no backslash escapes,
and stays on its line. -/
def regexBody? : List Char → Option Nat
  | [] => none
  | '/' :: _ => some 0
  | '\n' :: _ => none
  | '\\' :: [] => none
  | '\\' :: '\n' :: _ => none
  | '\\' :: _ :: cs => (regexBody? cs).map (· + 2)
  | _ :: cs => (regexBody? cs).map (· + 1)

/-- A way to read one lexeme off the front of a text. -/
structure Pattern where
  /-- How many characters the lexeme takes. -/
  length? : List Char → Option Nat
  length_pos : ∀ {cs n}, length? cs = some n → 0 < n

namespace Pattern

/-- One or more characters of a class. -/
def run (p : Char → Bool) : Pattern where
  length? cs := match runLength p cs with
    | 0 => none
    | n + 1 => some (n + 1)
  length_pos := by intro cs n h; split at h <;> simp at h; omega

/-- The first of the given texts that stands at the front. -/
def oneOf (texts : List String) (nonempty : ∀ t ∈ texts, t ≠ "" := by decide) : Pattern where
  length? := firstWord? (texts.map String.toList)
  length_pos := by
    intro cs n h
    obtain ⟨w, hw, h⟩ := List.exists_of_findSome?_eq_some h
    obtain ⟨t, ht, rfl⟩ := List.mem_map.1 hw
    split at h <;> cases h
    exact List.length_pos_iff.2 (by simpa using nonempty t ht)

/-- The first of the given words that stands at the front as a whole word. -/
def wholeWord (words : List String) (nonempty : ∀ t ∈ words, t ≠ "" := by decide) : Pattern where
  length? := firstWholeWord? (words.map String.toList)
  length_pos := by
    intro cs n h
    obtain ⟨w, hw, h⟩ := List.exists_of_findSome?_eq_some h
    obtain ⟨t, ht, rfl⟩ := List.mem_map.1 hw
    split at h <;> cases h
    exact List.length_pos_iff.2 (by simpa using nonempty t ht)

/-- From two slashes to the end of the line. -/
def lineComment : Pattern where
  length? cs := match cs with
    | '/' :: '/' :: cs => some (runLength (· != '\n') cs + 2)
    | _ => none
  length_pos := by intro cs n h; split at h <;> simp at h; omega

/-- From `/*` to the first `*/` behind it. -/
def blockComment : Pattern where
  length? cs := match cs with
    | '/' :: '*' :: cs => (blockCommentTail? cs).map (· + 2)
    | _ => none
  length_pos := by
    intro cs n h
    split at h <;> simp at h
    omega

/-- Digits with an `n` behind them. -/
def bigInt : Pattern where
  length? cs := match runLength Char.isDigit cs with
    | 0 => none
    | n + 1 => if (cs.drop (n + 1)).head? = some 'n' then some (n + 2) else none
  length_pos := by
    intro cs n h
    split at h
    · simp at h
    · split at h <;> simp at h; omega

/-- Digits, then a fraction and an exponent if they are there. -/
def number : Pattern where
  length? cs := match runLength Char.isDigit cs with
    | 0 => none
    | n + 1 =>
      let fraction := fractionLength (cs.drop (n + 1))
      some (n + 1 + fraction + exponentLength (cs.drop (n + 1 + fraction)))
  length_pos := by intro cs n h; split at h <;> simp at h; omega

/-- From a quote to the last such quote on the line. -/
def quoted (quote : Char) : Pattern where
  length? cs := match cs with
    | [] => none
    | c :: cs => if c = quote then (quotedTail? quote cs).map (· + 1) else none
  length_pos := by
    intro cs n h
    split at h
    · simp at h
    · split at h <;> simp at h; omega

/-- A body between two slashes, which is not empty, and lower-case letters behind it. -/
def regex : Pattern where
  length? cs := match cs with
    | '/' :: cs => match regexBody? cs with
      | some (n + 1) => some (n + 3 + runLength Char.isLower (cs.drop (n + 2)))
      | _ => none
    | _ => none
  length_pos := by
    intro cs n h
    split at h
    · split at h <;> simp at h; omega
    · simp at h

/-- The word `function`, blanks, and a star. -/
def functionStar : Pattern where
  length? cs :=
    if "function".toList.isPrefixOf cs then
      let n := 8 + runLength isBlank (cs.drop 8)
      if (cs.drop n).head? = some '*' then some (n + 1) else none
    else none
  length_pos := by
    intro cs n h
    split at h
    · simp only at h
      split at h <;> simp at h; omega
    · simp at h

/-- A name. -/
def identifier : Pattern where
  length? cs := match cs with
    | [] => none
    | c :: cs => if isNameStart c then some (runLength isNameChar cs + 1) else none
  length_pos := by
    intro cs n h
    split at h
    · simp at h
    · split at h <;> simp at h; omega

end Pattern

end ScriptTree
