import ScriptTree.Proofs.Slashes
import Mathlib.Data.List.MinMax

/-!
# Words and symbols

A text that begins with no blank, digit, quote or slash begins with a word, with a symbol, or with a
character that nothing is read at. `Spelt` says which, without the order of the rules. Two rules may
read different parts of one text, so the order matters: a symbol comes before those that begin it,
so that the longest one is read, and a reserved word comes before names but ends where a word ends,
which is earlier than a name would end in front of a dollar sign.

Main statement: `Cursor.next_of_spelt`.
-/

namespace ScriptTree

/-- Punctuation and operators by the kinds of their tokens. -/
def symbolsByKind : List (Kind × List String) :=
  [(.semicolon, [";"]), (.lBrace, ["\x7b"]), (.rBrace, ["\x7d"]), (.lBracket, ["["]),
   (.rBracket, ["]"]), (.lParen, ["("]), (.rParen, [")"]), (.dot, ["."]), (.comma, [","]),
   (.colon, [":"]), (.hash, ["#"]), (.backtick, ["`"]), (.arrow, ["=>"]),
   (.dollarBrace, ["$\x7b"]), (.logicalAnd, ["&&"]), (.logicalOrNullish, ["||", "??"]),
   (.questionDot, ["?."]), (.bitwiseOr, ["|"]), (.bitwiseAnd, ["&"]), (.bitwiseXor, ["^"]),
   (.power, ["**"]), (.comparison, [">=", "<=", ">", "<"]),
   (.equality, ["===", "!==", "==", "!="]), (.assignment, ["="]),
   (.complexAssignment, ["+=", "-=", "*=", "/="]), (.incrementDecrement, ["++", "--"]),
   (.bang, ["!"]), (.additive, ["+", "-"]), (.multiplicative, ["*", "/"])]

/-- Reserved words by the kinds of their tokens. -/
def wordsByKind : List (Kind × List String) :=
  [(.kwLetOrConst, ["let", "const"]), (.kwIf, ["if"]), (.kwElse, ["else"]), (.kwOf, ["of"]),
   (.kwFor, ["for"]), (.kwWhile, ["while"]), (.kwDo, ["do"]), (.kwContinue, ["continue"]),
   (.kwBreak, ["break"]), (.kwAsync, ["async"]), (.kwAwait, ["await"]), (.kwYield, ["yield"]),
   (.kwThis, ["this"]), (.kwThrow, ["throw"]), (.kwTry, ["try"]), (.kwCatch, ["catch"]),
   (.kwFinally, ["finally"]), (.kwFunction, ["function"]), (.kwReturn, ["return"]),
   (.boolean, ["true", "false"]), (.kwClass, ["class"]), (.kwStatic, ["static"]),
   (.kwExtends, ["extends"]), (.null, ["null"]), (.undefined, ["undefined"]), (.kwNew, ["new"])]

/-- Each text with the kind of its token. -/
def textsOf (byKind : List (Kind × List String)) : List (Kind × List Char) :=
  byKind.flatMap fun entry => entry.2.map fun text => (entry.1, text.toList)

/-- Punctuation and operators. -/
def symbols : List (Kind × List Char) :=
  textsOf symbolsByKind

/-- Reserved words, the words for values among them. -/
def reservedWords : List (Kind × List Char) :=
  textsOf wordsByKind

/-- Blanks with a star behind them. -/
def BlanksAndStar (cs : List Char) : Prop :=
  ∃ blanks rest, (∀ c ∈ blanks, isBlank c = true) ∧ cs = blanks ++ '*' :: rest

/-- What is read at the front of a text that begins with no blank, digit, quote or slash. -/
inductive Spelt : List Char → Front → Prop where
  | dollarBrace {rest : List Char} :
      Spelt ('$' :: '\x7b' :: rest) (.token .dollarBrace ['$', '\x7b'])
  | functionStar {blanks rest : List Char} (hblanks : ∀ c ∈ blanks, isBlank c = true) :
      Spelt ("function".toList ++ (blanks ++ '*' :: rest))
        (.token .kwFunctionStar ("function".toList ++ blanks ++ ['*']))
  | reserved {kind : Kind} {word rest : List Char} (hword : (kind, word) ∈ reservedWords)
      (hrun : IsRun isWordChar word rest) (hstar : kind = .kwFunction → ¬BlanksAndStar rest) :
      Spelt (word ++ rest) (.token kind word)
  | name {word rest : List Char} (hstart : word.head?.any isNameStart = true)
      (hrun : IsRun isNameChar word rest) (hbrace : ¬['$', '\x7b'] <+: word ++ rest)
      (hfree : ∀ kind, (kind, (word ++ rest).takeWhile isWordChar) ∉ reservedWords) :
      Spelt (word ++ rest) (.token .identifier word)
  | symbol {kind : Kind} {text rest : List Char} (hstart : text.head?.any isNameStart = false)
      (hsymbol : (kind, text) ∈ symbols)
      (hlongest : ∀ other ∈ symbols, other.2 <+: text ++ rest → other.2.length ≤ text.length) :
      Spelt (text ++ rest) (.token kind text)
  | nothing {c : Char} {rest : List Char} (hstart : isNameStart c = false)
      (hnone : ∀ symbol ∈ symbols, ¬symbol.2 <+: c :: rest) : Spelt (c :: rest) (.refused c)

section Spellings

variable {cs : List Char}

/-- The kind and length of the first text that is selected. -/
def select? (p : List Char → Bool) (entries : List (Kind × List Char)) :
    Option (Option Kind × Nat) :=
  entries.findSome? fun e => if p e.2 then some (some e.1, e.2.length) else none

/-- What the first of some rules reads. -/
def Rule.firstOf? (rules : List Rule) (cs : List Char) : Option (Option Kind × Nat) :=
  rules.findSome? fun rule => (rule.pattern.length? cs).map (rule.kind?, ·)

/-- A rule reads the first of its texts that is selected. -/
def Rule.Selects (p : List Char → Bool) (cs : List Char) (entry : Kind × List String)
    (rule : Rule) : Prop :=
  rule.kind? = some entry.1 ∧ rule.pattern.length? cs =
    (entry.2.map String.toList).findSome? fun w => if p w then some w.length else none

lemma select?_append (p : List Char → Bool) (a b : List (Kind × List Char)) :
    select? p (a ++ b) = (select? p a).or (select? p b) :=
  List.findSome?_append

lemma firstOf?_eq_select? {p : List Char → Bool} {entries : List (Kind × List String)}
    {rules : List Rule} (h : List.Forall₂ (Rule.Selects p cs) entries rules) :
    Rule.firstOf? rules cs = select? p (textsOf entries) := by
  induction h with
  | nil => rfl
  | @cons entry rule entries rules hrule _ ih =>
    obtain ⟨hkind, hlength⟩ := hrule
    have hentry : (rule.pattern.length? cs).map (rule.kind?, ·) =
        select? p (entry.2.map fun text => (entry.1, text.toList)) := by
      rw [hlength, hkind, List.map_findSome?, List.findSome?_map, select?, List.findSome?_map]
      refine findSome?_congr fun text _ => ?_
      simp only [Function.comp_apply]
      split <;> rfl
    have hcons : textsOf (entry :: entries) =
        (entry.2.map fun text => (entry.1, text.toList)) ++ textsOf entries := List.flatMap_cons
    rw [hcons, select?_append, ← ih, ← hentry, Rule.firstOf?, List.findSome?_cons]
    cases (rule.pattern.length? cs).map (rule.kind?, ·) <;> rfl

lemma select?_eq_none {p : List Char → Bool} {entries : List (Kind × List Char)}
    (h : ∀ e ∈ entries, p e.2 = false) : select? p entries = none :=
  List.findSome?_eq_none_iff.2 fun e he => if_neg (by rw [h e he]; exact Bool.false_ne_true)

/-- The first text at the front is the longest one if no text begins one that comes behind it. -/
lemma select?_of_longest {entries : List (Kind × List Char)}
    (hpair : entries.Pairwise fun a b => ¬a.2 <+: b.2) {kind : Kind} {text : List Char}
    (hmem : (kind, text) ∈ entries) (hat : text <+: cs)
    (hlongest : ∀ e ∈ entries, e.2 <+: cs → e.2.length ≤ text.length) :
    select? (·.isPrefixOf cs) entries = some (some kind, text.length) := by
  unfold select?
  induction entries with
  | nil => cases hmem
  | cons e entries ih =>
    rw [List.pairwise_cons] at hpair
    rw [List.findSome?_cons]
    by_cases hfront : e.2 <+: cs
    · rw [if_pos (List.isPrefixOf_iff_prefix.2 hfront)]
      rcases List.mem_cons.1 hmem with rfl | htail
      · rfl
      · have hle := hlongest e List.mem_cons_self hfront
        exact absurd (List.prefix_of_prefix_length_le hfront hat hle) (hpair.1 _ htail)
    · rw [if_neg fun h => hfront (List.isPrefixOf_iff_prefix.1 h)]
      rcases List.mem_cons.1 hmem with rfl | htail
      · exact absurd hat hfront
      · exact ih hpair.2 htail fun o ho => hlongest o (List.mem_cons_of_mem e ho)

/-- The only entry of a word is found. -/
lemma select?_of_mem {entries : List (Kind × List Char)}
    (hpair : entries.Pairwise fun a b => a.2 ≠ b.2) {kind : Kind} {word : List Char}
    (hmem : (kind, word) ∈ entries) :
    select? (· == word) entries = some (some kind, word.length) := by
  unfold select?
  induction entries with
  | nil => cases hmem
  | cons e entries ih =>
    rw [List.pairwise_cons] at hpair
    rw [List.findSome?_cons]
    rcases List.mem_cons.1 hmem with rfl | htail
    · simp
    · have hne : ¬(e.2 == word) = true := by simpa using hpair.1 _ htail
      rw [if_neg hne]
      exact ih hpair.2 htail

lemma selects_symbols (cs : List Char) : List.Forall₂ (Rule.Selects (·.isPrefixOf cs) cs)
    symbolsByKind (Rule.punctuation ++ Rule.operators) := by
  repeat refine .cons ⟨rfl, rfl⟩ ?_
  exact .nil

lemma selects_wholeWord {kind : Kind} {words : List String} (h : ∀ w ∈ words, w ≠ "" := by decide)
    (hwords : AreWords words := by decide) :
    Rule.Selects (· == cs.takeWhile isWordChar) cs (kind, words)
      (.make kind (.wholeWord words h)) := by
  refine ⟨rfl, findSome?_congr fun w hw => ?_⟩
  obtain ⟨word, hword, rfl⟩ := List.mem_map.1 hw
  have hselected : (word.toList.isPrefixOf cs &&
      !(cs.drop word.toList.length).head?.any isWordChar) =
        (word.toList == cs.takeWhile isWordChar) := by
    rw [Bool.eq_iff_iff, isPrefixOf_and_boundary_iff (hwords word hword).2, beq_iff_eq, eq_comm]
  rw [hselected]

/-- The rule for `function*` is in front of the one for `function`. -/
lemma words_eq : Rule.words =
    Rule.words.take 17 ++ .make .kwFunctionStar .functionStar :: Rule.words.drop 18 := rfl

lemma selects_words_before (cs : List Char) :
    List.Forall₂ (Rule.Selects (· == cs.takeWhile isWordChar) cs) (wordsByKind.take 17)
      (Rule.words.take 17) := by
  repeat refine .cons selects_wholeWord ?_
  exact .nil

lemma selects_words_behind (cs : List Char) :
    List.Forall₂ (Rule.Selects (· == cs.takeWhile isWordChar) cs) (wordsByKind.drop 17)
      (Rule.words.drop 18) := by
  repeat refine .cons selects_wholeWord ?_
  exact .nil

lemma symbols_pairwise : symbols.Pairwise fun a b => ¬a.2 <+: b.2 := by
  decide

lemma reservedWords_pairwise : reservedWords.Pairwise fun a b => a.2 ≠ b.2 := by
  decide

/-- The only symbol that begins like a name. -/
lemma eq_of_isNameStart {symbol : Kind × List Char} (h : symbol ∈ symbols)
    (hstart : symbol.2.head?.any isNameStart = true) : symbol = (.dollarBrace, ['$', '\x7b']) := by
  have hall : ∀ symbol ∈ symbols, symbol.2.head?.any isNameStart = true →
      symbol = (.dollarBrace, ['$', '\x7b']) := by
    decide
  exact hall symbol h hstart

lemma isWord_of_mem {entry : Kind × List Char} (h : entry ∈ reservedWords) :
    IsWord entry.2 ∧ entry.2.all isWordChar = true := by
  have hall : ∀ entry ∈ reservedWords, IsWord entry.2 ∧ entry.2.all isWordChar = true := by
    decide
  exact hall entry h

lemma functionStar_length? {blanks rest : List Char} (h : ∀ c ∈ blanks, isBlank c = true) :
    Pattern.functionStar.length? ("function".toList ++ (blanks ++ '*' :: rest)) =
      some (blanks.length + 9) := by
  have hrun : IsRun isBlank blanks ('*' :: rest) := ⟨h, rfl⟩
  refine functionStar_eq_some_iff.2 ⟨blanks ++ '*' :: rest, rfl, ?_, ?_⟩
  · rw [hrun.runLength_eq, Nat.add_comm]
  · rw [hrun.runLength_eq, List.drop_left]
    rfl

lemma exists_of_functionStar {n : Nat} (h : Pattern.functionStar.length? cs = some n) :
    ∃ rest, BlanksAndStar rest ∧ cs = "function".toList ++ rest := by
  obtain ⟨more, rfl, -, hstar⟩ := functionStar_eq_some_iff.1 h
  obtain ⟨rest, hrest⟩ := List.head?_eq_some_iff.1 hstar
  refine ⟨more, ⟨more.take (runLength isBlank more), rest, ?_, ?_⟩, rfl⟩
  · rw [take_runLength]
    exact fun c hc => List.mem_takeWhile_imp hc
  · rw [← hrest, List.take_append_drop]

lemma BlanksAndStar.isRun_function (h : BlanksAndStar cs) :
    IsRun isWordChar "function".toList cs := by
  refine ⟨List.all_eq_true.1 rfl, ?_⟩
  obtain ⟨blanks, rest, hblanks, rfl⟩ := h
  cases blanks with
  | nil => rfl
  | cons c blanks =>
    have hc := hblanks c List.mem_cons_self
    simp only [isBlank, Bool.or_eq_true, beq_iff_eq] at hc
    rcases hc with ((((rfl | rfl) | rfl) | rfl) | rfl) | rfl <;> rfl

lemma Rule.firstOf?_append (a b : List Rule) (cs : List Char) :
    Rule.firstOf? (a ++ b) cs = (Rule.firstOf? a cs).or (Rule.firstOf? b cs) :=
  List.findSome?_append

lemma Rule.firstOf?_cons (rule : Rule) (rules : List Rule) (cs : List Char) :
    Rule.firstOf? (rule :: rules) cs =
      ((rule.pattern.length? cs).map (rule.kind?, ·)).or (Rule.firstOf? rules cs) := by
  rw [Rule.firstOf?, List.findSome?_cons]
  cases (rule.pattern.length? cs).map (rule.kind?, ·) <;> rfl

/-- No rule that comes before the symbols reads anything. -/
lemma first?_of_isPlain (h : IsPlain cs) : Rule.first? cs =
    (select? (·.isPrefixOf cs) symbols).or
      ((Rule.firstOf? Rule.words cs).or
        ((Pattern.identifier.length? cs).map (some .identifier, ·))) := by
  obtain ⟨c, tail, rfl, hblank, hdigit, hslash, hsingle, hdouble⟩ := h.exists_cons
  have hbefore : Rule.firstOf? (Rule.blanks ++ Rule.literals) (c :: tail) = none := by
    refine List.findSome?_eq_none_iff.2 fun rule hrule => Option.map_eq_none_iff.2 ?_
    revert rule
    simp only [Rule.blanks, Rule.literals, Rule.skip, Rule.make, List.cons_append, List.nil_append,
      List.forall_mem_cons]
    simp [runLength, hblank, hdigit, hslash, hsingle, hdouble, Pattern.run, Pattern.lineComment,
      Pattern.blockComment, Pattern.bigInt, Pattern.number, Pattern.quoted, Pattern.regex]
  have hsymbols := firstOf?_eq_select? (selects_symbols (c :: tail))
  have htable : Rule.table = (Rule.blanks ++ Rule.literals) ++ ((Rule.punctuation ++
      Rule.operators) ++ (Rule.words ++ [.make .identifier .identifier])) := by
    simp [Rule.table]
  have hfirst : Rule.first? (c :: tail) = Rule.firstOf? Rule.table (c :: tail) := rfl
  rw [hfirst, htable, Rule.firstOf?_append, hbefore, Option.none_or, Rule.firstOf?_append, hsymbols,
    Rule.firstOf?_append, Rule.firstOf?_cons]
  exact congrArg _ (congrArg _ Option.or_none)

/-- The rules for words read `function*`, or else the word characters at the front. -/
lemma firstOf?_words (cs : List Char) : Rule.firstOf? Rule.words cs =
    ((Pattern.functionStar.length? cs).map (some .kwFunctionStar, ·)).or
      (select? (· == cs.takeWhile isWordChar) reservedWords) := by
  have hbefore := firstOf?_eq_select? (selects_words_before cs)
  have hbehind := firstOf?_eq_select? (selects_words_behind cs)
  rw [words_eq, Rule.firstOf?_append, Rule.firstOf?_cons, hbefore, hbehind]
  have hwords : reservedWords =
      textsOf (wordsByKind.take 17) ++ textsOf (wordsByKind.drop 17) := rfl
  simp only [Rule.make]
  cases hstar : Pattern.functionStar.length? cs with
  | none => rw [hwords, select?_append, Option.map_none, Option.none_or, Option.none_or]
  | some n =>
    obtain ⟨rest, hrest, rfl⟩ := exists_of_functionStar hstar
    have hnone : select? (· == "function".toList) (textsOf (wordsByKind.take 17)) = none := by
      decide
    rw [hrest.isRun_function.takeWhile_eq, hnone, Option.none_or]
    rfl

lemma functionStar_eq_none (h : ∀ rest, BlanksAndStar rest → cs ≠ "function".toList ++ rest) :
    Pattern.functionStar.length? cs = none := by
  by_contra hsome
  obtain ⟨n, hn⟩ := Option.ne_none_iff_exists'.1 hsome
  obtain ⟨rest, hrest, hsplit⟩ := exists_of_functionStar hn
  exact h rest hrest hsplit

/-- In front of a name only `${` is a symbol. -/
lemma select?_symbols_of_isNameStart (hstart : cs.head?.any isNameStart = true)
    (hbrace : ¬['$', '\x7b'] <+: cs) : select? (·.isPrefixOf cs) symbols = none := by
  refine select?_eq_none fun symbol hsymbol => Bool.eq_false_iff.2 fun hfront => hbrace ?_
  obtain ⟨rest, rfl⟩ := List.isPrefixOf_iff_prefix.1 hfront
  have hne : symbol.2 ≠ [] := by
    have hall : ∀ symbol ∈ symbols, symbol.2 ≠ [] := by decide
    exact hall symbol hsymbol
  rw [List.head?_append_of_ne_nil _ hne] at hstart
  rw [eq_of_isNameStart hsymbol hstart]
  exact List.prefix_append _ rest

lemma first?_of_isNameStart (h : IsPlain cs) (hstart : cs.head?.any isNameStart = true)
    (hbrace : ¬['$', '\x7b'] <+: cs) : Rule.first? cs =
      (((Pattern.functionStar.length? cs).map (some .kwFunctionStar, ·)).or
        (select? (· == cs.takeWhile isWordChar) reservedWords)).or
        ((Pattern.identifier.length? cs).map (some .identifier, ·)) := by
  rw [first?_of_isPlain h, select?_symbols_of_isNameStart hstart hbrace, Option.none_or,
    firstOf?_words]

lemma identifier_length? {word rest : List Char} (hstart : word.head?.any isNameStart = true)
    (hrun : IsRun isNameChar word rest) :
    Pattern.identifier.length? (word ++ rest) = some word.length := by
  obtain ⟨hall, hend⟩ := hrun
  cases word with
  | nil => cases hstart
  | cons c word =>
    have htail : IsRun isNameChar word rest :=
      ⟨fun d hd => hall d (List.mem_cons_of_mem c hd), hend⟩
    have hc : isNameStart c = true := hstart
    simp only [Pattern.identifier, List.cons_append, if_pos hc, htail.runLength_eq,
      List.length_cons]

lemma isNameChar_of_isNameStart {c : Char} (h : isNameStart c = true) : isNameChar c = true := by
  simp only [isNameStart, Bool.or_eq_true] at h
  rcases h with (h | h) | h <;> simp [isNameChar, isWordChar, Char.isAlphanum, h]

lemma isWordChar_eq_false {c : Char} (hstart : isNameStart c = false) (hdigit : c.isDigit = false) :
    isWordChar c = false := by
  simp only [isNameStart, Bool.or_eq_false_iff] at hstart
  simp [isWordChar, Char.isAlphanum, hstart, hdigit]

end Spellings

lemma mem_reservedWords_function : (.kwFunction, "function".toList) ∈ reservedWords := by
  decide

lemma eq_function_iff {kind : Kind} {word : List Char} (h : (kind, word) ∈ reservedWords) :
    kind = .kwFunction ↔ word = "function".toList := by
  have hall : ∀ entry ∈ reservedWords, entry.1 = .kwFunction ↔ entry.2 = "function".toList := by
    decide
  exact hall _ h

/-- A reserved word is read as its kind, unless a star makes `function*` of it. -/
lemma first?_of_reserved {kind : Kind} {word rest : List Char} (hplain : IsPlain (word ++ rest))
    (hword : (kind, word) ∈ reservedWords) (hrun : IsRun isWordChar word rest)
    (hstar : kind = .kwFunction → ¬BlanksAndStar rest) :
    Rule.first? (word ++ rest) = some (some kind, word.length) := by
  obtain ⟨hshape, -⟩ := isWord_of_mem hword
  obtain ⟨c, tail, rfl, hc⟩ := hshape.exists_cons
  have hbrace : ¬['$', '\x7b'] <+: c :: tail ++ rest := by
    intro hfront
    have hdollar : '$' = c := (List.cons_prefix_cons.1 hfront).1
    have hwordChar := hrun.1 c List.mem_cons_self
    rw [← hdollar] at hwordChar
    cases hwordChar
  have hnone : Pattern.functionStar.length? (c :: tail ++ rest) = none := by
    refine functionStar_eq_none fun behind hbehind hsplit => ?_
    have hfunction : c :: tail = "function".toList := by
      rw [← hrun.takeWhile_eq, hsplit, hbehind.isRun_function.takeWhile_eq]
    rw [hfunction] at hsplit
    rw [List.append_cancel_left hsplit] at hstar
    exact hstar ((eq_function_iff hword).2 hfunction) hbehind
  rw [first?_of_isNameStart hplain hc hbrace, hnone, hrun.takeWhile_eq,
    select?_of_mem reservedWords_pairwise hword]
  rfl

/-- What is no reserved word is read as a name. -/
lemma first?_of_name {word rest : List Char} (hplain : IsPlain (word ++ rest))
    (hstart : word.head?.any isNameStart = true) (hrun : IsRun isNameChar word rest)
    (hbrace : ¬['$', '\x7b'] <+: word ++ rest)
    (hfree : ∀ kind, (kind, (word ++ rest).takeWhile isWordChar) ∉ reservedWords) :
    Rule.first? (word ++ rest) = some (some .identifier, word.length) := by
  have hne : word ≠ [] := by
    rintro rfl
    cases hstart
  have hhead : (word ++ rest).head?.any isNameStart = true := by
    rwa [List.head?_append_of_ne_nil _ hne]
  have hnone : Pattern.functionStar.length? (word ++ rest) = none := by
    refine functionStar_eq_none fun behind hbehind hsplit => ?_
    rw [hsplit, hbehind.isRun_function.takeWhile_eq] at hfree
    exact hfree .kwFunction mem_reservedWords_function
  have hselect : select? (· == (word ++ rest).takeWhile isWordChar) reservedWords = none := by
    refine select?_eq_none fun entry hentry => Bool.eq_false_iff.2 fun heq => ?_
    rw [← beq_iff_eq.1 heq] at hfree
    exact hfree entry.1 hentry
  rw [first?_of_isNameStart hplain hhead hbrace, hnone, hselect, identifier_length? hstart hrun]
  rfl

/-- No rule reads a character that begins no name and no symbol. -/
lemma first?_of_nothing {c : Char} {rest : List Char} (hplain : IsPlain (c :: rest))
    (hstart : isNameStart c = false) (hnone : ∀ symbol ∈ symbols, ¬symbol.2 <+: c :: rest) :
    Rule.first? (c :: rest) = none := by
  obtain ⟨d, tail, hcons, -, hdigit, -⟩ := hplain.exists_cons
  cases hcons
  have hsymbol : select? (·.isPrefixOf (c :: rest)) symbols = none :=
    select?_eq_none fun symbol hsymbol => Bool.eq_false_iff.2 fun hfront =>
      hnone symbol hsymbol (List.isPrefixOf_iff_prefix.1 hfront)
  have hstar : Pattern.functionStar.length? (c :: rest) = none := by
    refine functionStar_eq_none fun behind hbehind hsplit => ?_
    have hc : c = 'f' := (List.cons.inj hsplit).1
    rw [hc] at hstart
    cases hstart
  have hrun : (c :: rest).takeWhile isWordChar = [] := by
    simp [isWordChar_eq_false hstart hdigit]
  have hselect : select? (· == []) reservedWords = none := by decide
  rw [first?_of_isPlain hplain, hsymbol, firstOf?_words, hstar, hrun, hselect]
  simp [Pattern.identifier, hstart]

/-- What is spelt is what the rules read. -/
lemma Spelt.isRead {cs : List Char} {front : Front} (hplain : IsPlain cs) (h : Spelt cs front) :
    front.IsRead cs := by
  cases h with
  | @dollarBrace rest => exact ⟨List.prefix_append ['$', '\x7b'] rest, rfl⟩
  | @functionStar blanks rest hblanks =>
    refine ⟨⟨rest, by simp⟩, ?_⟩
    rw [first?_of_isNameStart hplain rfl (by rintro ⟨tail, htail⟩; cases htail),
      functionStar_length? hblanks]
    simp
  | @reserved kind word rest hword hrun hstar =>
    exact ⟨List.prefix_append _ rest, first?_of_reserved hplain hword hrun hstar⟩
  | @name word rest hstart hrun hbrace hfree =>
    exact ⟨List.prefix_append _ rest, first?_of_name hplain hstart hrun hbrace hfree⟩
  | @symbol kind text rest hstart hsymbol hlongest =>
    refine ⟨List.prefix_append _ rest, ?_⟩
    rw [first?_of_isPlain hplain,
      select?_of_longest symbols_pairwise hsymbol (List.prefix_append _ rest) hlongest]
    rfl
  | nothing hstart hnone => exact ⟨rfl, first?_of_nothing hplain hstart hnone⟩

lemma exists_longest {cs : List Char} (h : ∃ symbol ∈ symbols, symbol.2 <+: cs) :
    ∃ symbol ∈ symbols, symbol.2 <+: cs ∧
      ∀ other ∈ symbols, other.2 <+: cs → other.2.length ≤ symbol.2.length := by
  have hmem : ∀ symbol, symbol ∈ symbols.filter (fun s => s.2.isPrefixOf cs) ↔
      symbol ∈ symbols ∧ symbol.2 <+: cs := by
    simp
  obtain ⟨symbol, hsymbol⟩ := h
  rcases hlongest : (symbols.filter fun s => s.2.isPrefixOf cs).argmax (·.2.length) with _ | longest
  · rw [List.argmax_eq_none] at hlongest
    rw [← hmem, hlongest] at hsymbol
    cases hsymbol
  · obtain ⟨hin, hfront⟩ := (hmem longest).1 (List.argmax_mem hlongest)
    refine ⟨longest, hin, hfront, fun other hother hat => ?_⟩
    have hother' := (hmem other).2 ⟨hother, hat⟩
    exact List.le_of_mem_argmax (f := fun s : Kind × List Char => s.2.length) hother' hlongest

lemma exists_spelt_word {c : Char} (hstart : isNameStart c = true) (cs : List Char) :
    ∃ front, Spelt (c :: cs) front := by
  by_cases hbrace : ['$', '\x7b'] <+: c :: cs
  · obtain ⟨rest, hrest⟩ := hbrace
    rw [← hrest]
    exact ⟨_, .dollarBrace⟩
  by_cases hreserved : ∃ kind, (kind, (c :: cs).takeWhile isWordChar) ∈ reservedWords
  · obtain ⟨kind, hword⟩ := hreserved
    obtain ⟨word, rest, hcs, hrun⟩ := exists_isRun isWordChar (c :: cs)
    rw [← hcs, hrun.takeWhile_eq] at hword
    rw [← hcs]
    by_cases hstar : kind = .kwFunction ∧ BlanksAndStar rest
    · obtain ⟨hkind, blanks, behind, hblanks, rfl⟩ := hstar
      rw [(eq_function_iff hword).1 hkind]
      exact ⟨_, .functionStar hblanks⟩
    · exact ⟨_, .reserved hword hrun fun hkind hblanks => hstar ⟨hkind, hblanks⟩⟩
  · obtain ⟨word, rest, hcs, hrun⟩ := exists_isRun isNameChar (c :: cs)
    have hhead : word.head?.any isNameStart = true := by
      cases word with
      | nil =>
        obtain ⟨-, hend⟩ := hrun
        rw [show rest = c :: cs from hcs, List.head?_cons, Option.any_some,
          isNameChar_of_isNameStart hstart] at hend
        cases hend
      | cons d word =>
        cases hcs
        exact hstart
    rw [← hcs] at hbrace hreserved ⊢
    exact ⟨_, .name hhead hrun hbrace fun kind hkind => hreserved ⟨kind, hkind⟩⟩

lemma exists_spelt_symbol {c : Char} (hstart : isNameStart c = false) (cs : List Char) :
    ∃ front, Spelt (c :: cs) front := by
  by_cases hsymbol : ∃ symbol ∈ symbols, symbol.2 <+: c :: cs
  · obtain ⟨⟨kind, text⟩, hmem, ⟨rest, hrest⟩, hlongest⟩ := exists_longest hsymbol
    have hhead : text.head?.any isNameStart = false := by
      cases text with
      | nil => rfl
      | cons d text =>
        cases hrest
        exact hstart
    rw [← hrest] at hlongest ⊢
    exact ⟨_, .symbol hhead hmem hlongest⟩
  · exact ⟨_, .nothing hstart fun symbol hmem hfront => hsymbol ⟨symbol, hmem, hfront⟩⟩

/-- Something is spelt by every text that is not at its end. -/
lemma exists_spelt {c : Char} (cs : List Char) : ∃ front, Spelt (c :: cs) front := by
  cases hstart : isNameStart c with
  | true => exact exists_spelt_word hstart cs
  | false => exact exists_spelt_symbol hstart cs

/-- In front of any other character than a blank, a digit, a quote or a slash exactly one reading is
spelt. It is what a backtracking matcher finds with the first regular expression of the lexical
rules that matches at all, and what the next token is made of. -/
theorem Cursor.next_of_spelt {cursor : Cursor} (hplain : IsPlain cursor.rest) :
    (∃! front, Spelt cursor.rest front) ∧ ∀ front, Spelt cursor.rest front →
      Rule.firstMatch? cursor.rest = front.match? cursor.rest ∧
        cursor.next = front.next cursor := by
  obtain ⟨front, hspelt⟩ : ∃ front, Spelt cursor.rest front := by
    obtain ⟨c, cs, hrest, -⟩ := hplain.exists_cons
    rw [hrest]
    exact exists_spelt cs
  have hread := hspelt.isRead hplain
  refine ⟨⟨front, hspelt, fun other hother => hread.unique (hother.isRead hplain)⟩, ?_⟩
  exact fun other hother =>
    ⟨(hother.isRead hplain).firstMatch?_eq, (hother.isRead hplain).next_eq⟩

/-- A reserved word ends in front of a dollar sign, which a name would go on with. -/
theorem Cursor.next_of_word_and_dollar :
    Spelt "if$".toList (.token .kwIf "if".toList) ∧
      (⟨3, "if$".toList⟩ : Cursor).next = (.ok ⟨.kwIf, "if", ⟨3, 5⟩⟩, ⟨5, "$".toList⟩) := by
  have hspelt : Spelt (['i', 'f'] ++ ['$']) (.token .kwIf ['i', 'f']) := by
    refine .reserved (by decide) ?_ ?_
    · exact ⟨List.all_eq_true.1 rfl, rfl⟩
    · exact fun hkind => by cases hkind
  have hnext := (@Cursor.next_of_spelt ⟨3, "if$".toList⟩ rfl).2 _ hspelt
  exact ⟨hspelt, hnext.2⟩

end ScriptTree
