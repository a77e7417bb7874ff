import ScriptTree.Proofs.Lines
import ScriptTree.Proofs.Tiling

/-!
# Texts of tokens

The text of a token is one that a rule of its kind reads. So operators and words have one of finitely
many spellings, and quoted texts, regular expressions and big integers have the marks around them
that the grammar cuts off.
-/

namespace ScriptTree

/-- The patterns of the rules that make tokens of a kind. -/
def Kind.patterns (kind : Kind) : List Pattern :=
  (Rule.lexical.filter (·.kind? == some kind)).map Rule.pattern

/-- A text is what a rule of a kind reads off the front of some text. -/
def Kind.Spells (kind : Kind) (text : String) : Prop :=
  ∃ pattern ∈ kind.patterns, ∃ cs n, pattern.length? cs = some n ∧ String.ofList (cs.take n) = text

/-- A token of a kind, with a text of that kind. -/
def Is (kind : Kind) (token : Token) : Prop :=
  token.kind = kind ∧ kind.Spells token.text

/-- The kinds whose texts are not read by the lexical rules, or not only by them. -/
def Kind.isFree : Kind → Bool
  | .templateString | .dollarBrace | .endOfFile => true
  | _ => false

/-- A token as it comes from the lexical rules or out of a template. -/
def Token.Lexical (token : Token) : Prop :=
  token.kind.isFree = true ∨ token.kind.Spells token.text

lemma Token.Lexical.is {token : Token} {kind : Kind} (h : token.Lexical) (hkind : token.kind = kind)
    (hfree : kind.isFree = false) : Is kind token := by
  subst hkind
  rcases h with hfree' | hspells
  · rw [hfree] at hfree'
    cases hfree'
  · exact ⟨rfl, hspells⟩

namespace Cursor

lemma spells_of_first? {cs : List Char} {kind : Kind} {n : Nat}
    (h : Rule.first? cs = some (some kind, n)) : kind.Spells (String.ofList (cs.take n)) := by
  obtain ⟨rule, hmem, hkind, hlength⟩ := Rule.exists_of_first? h
  rw [Rule.table_eq, List.mem_append] at hmem
  rcases hmem with hblank | hlexical
  · simp only [Rule.blanks, Rule.skip, List.mem_cons, List.not_mem_nil, or_false] at hblank
    rcases hblank with rfl | rfl | rfl <;> cases hkind
  · have hfilter : rule ∈ Rule.lexical.filter (·.kind? == some kind) :=
      List.mem_filter.2 ⟨hlexical, beq_iff_eq.2 hkind⟩
    exact ⟨rule.pattern, List.mem_map_of_mem hfilter, cs, n, hlength, rfl⟩

lemma spells_of_isToken {kind : Kind} {text : String} (h : IsToken kind text) : kind.Spells text := by
  obtain ⟨n, hfirst, htake⟩ := first?_of_isToken h
  have hspells := spells_of_first? hfirst
  rwa [htake, String.ofList_toList] at hspells

/-- What the lexical rules read is a token of its kind. -/
lemma lexical_of_next {cursor after : Cursor} {token : Token}
    (h : cursor.next = (.ok token, after)) : token.Lexical := by
  obtain ⟨gap, start, -, -, -, hmeets⟩ := cursor.next_meets
  rw [h] at hmeets
  cases hmeets with
  | done => exact Or.inl rfl
  | lexeme hrule => exact Or.inr (spells_of_first? hrule)

/-- So is what is read in a template, where a bracket or a backtick is the character that stands
there. -/
lemma lexical_of_nextTemplate (cursor : Cursor) : cursor.nextTemplate.1.Lexical := by
  have hone : ∀ {kind : Kind} {c : Char} {cs : List Char}, cursor.rest = c :: cs →
      Rule.first? (c :: cs) = some (some kind, 1) → (cursor.token kind 1).Lexical := by
    intro kind c cs hrest hrule
    have hspells := spells_of_first? hrule
    rw [← hrest] at hspells
    exact Or.inr hspells
  unfold nextTemplate
  split
  next => exact Or.inl rfl
  next hrest => exact hone hrest rfl
  next hrest => exact hone hrest rfl
  next =>
    dsimp only
    split <;> exact Or.inl rfl

end Cursor

lemma mem_of_oneOf {kind : Kind} {text : String} (texts : List String) (h : ∀ t ∈ texts, t ≠ "")
    (hkind : kind.patterns = [.oneOf texts h]) (hspells : kind.Spells text) : text ∈ texts := by
  obtain ⟨pattern, hpattern, cs, n, hlength, rfl⟩ := hspells
  rw [hkind, List.mem_singleton] at hpattern
  subst hpattern
  unfold Pattern.oneOf firstWord? at hlength
  obtain ⟨w, hw, hfound⟩ := List.exists_of_findSome?_eq_some hlength
  obtain ⟨word, hword, rfl⟩ := List.mem_map.1 hw
  split at hfound
  next hfront =>
    cases hfound
    have htake := List.prefix_iff_eq_take.1 (List.isPrefixOf_iff_prefix.1 hfront)
    rwa [← htake, String.ofList_toList]
  next => cases hfound

lemma mem_of_wholeWord {kind : Kind} {text : String} (words : List String)
    (h : ∀ t ∈ words, t ≠ "") (hkind : kind.patterns = [.wholeWord words h])
    (hspells : kind.Spells text) : text ∈ words := by
  obtain ⟨pattern, hpattern, cs, n, hlength, rfl⟩ := hspells
  rw [hkind, List.mem_singleton] at hpattern
  subst hpattern
  obtain ⟨word, hword, htake, -⟩ := take_of_wholeWord hlength
  rwa [htake, String.ofList_toList]

/-- The texts of operators, of brackets and other marks in expressions, and of the words that stand
for values; nothing for other kinds. -/
def Kind.spellings : Kind → List String
  | .boolean => ["true", "false"]
  | .null => ["null"]
  | .undefined => ["undefined"]
  | .kwThis => ["this"]
  | .kwLetOrConst => ["let", "const"]
  | .kwAwait => ["await"]
  | .lParen => ["("]
  | .rParen => [")"]
  | .lBracket => ["["]
  | .rBracket => ["]"]
  | .comma => [","]
  | .hash => ["#"]
  | .dot => ["."]
  | .questionDot => ["?."]
  | .logicalAnd => ["&&"]
  | .logicalOrNullish => ["||", "??"]
  | .bitwiseOr => ["|"]
  | .bitwiseAnd => ["&"]
  | .bitwiseXor => ["^"]
  | .power => ["**"]
  | .comparison => [">=", "<=", ">", "<"]
  | .equality => ["===", "!==", "==", "!="]
  | .assignment => ["="]
  | .complexAssignment => ["+=", "-=", "*=", "/="]
  | .incrementDecrement => ["++", "--"]
  | .bang => ["!"]
  | .additive => ["+", "-"]
  | .multiplicative => ["*", "/"]
  | _ => []

theorem Kind.Spells.mem_spellings {kind : Kind} {text : String} (h : kind.Spells text)
    (hne : kind.spellings ≠ []) : text ∈ kind.spellings := by
  cases kind
  all_goals first
    | exact absurd rfl hne
    | exact mem_of_oneOf _ (by decide) rfl h
    | exact mem_of_wholeWord _ (by decide) rfl h

lemma kindOf_of_mem_spellings {kind : Kind} {text : String} (h : text ∈ kind.spellings) :
    kindOf text = kind := by
  have hall : ∀ text ∈ kind.spellings, kindOf text = kind := by
    cases kind <;> decide +kernel
  exact hall text h

lemma lexemeOf_of_mem_spellings {kind : Kind} {text : String} (h : text ∈ kind.spellings) :
    lexemeOf text = (kind, text) :=
  congrArg (·, text) (kindOf_of_mem_spellings h)

lemma quotedTail?_eq_some {quote : Char} {cs : List Char} {n : Nat}
    (h : quotedTail? quote cs = some n) : ∃ body, cs.take n = body ++ [quote] := by
  unfold quotedTail? at h
  generalize hline : cs.takeWhile (· != '\n') = line at h
  have hprefix : line <+: cs := hline ▸ List.takeWhile_prefix _
  rcases hlast : line.reverse.dropWhile (· != quote) with _ | ⟨c, back⟩
  · rw [hlast] at h
    cases h
  · rw [hlast] at h
    cases h
    have hc : c = quote := by
      rcases head?_dropWhile_ne quote line.reverse with hnone | hsome
      · rw [hlast] at hnone
        cases hnone
      · rw [hlast] at hsome
        exact Option.some.inj hsome
    -- read from its end, the line is what stands behind the last quote, then that quote and the rest
    have hreverse : line.reverse = line.reverse.takeWhile (· != quote) ++ c :: back := by
      rw [← hlast, List.takeWhile_append_dropWhile]
    have hfront : back.reverse ++ [c] <+: line := by
      refine ⟨(line.reverse.takeWhile (· != quote)).reverse, ?_⟩
      have hjoin := congrArg List.reverse hreverse
      simp only [List.reverse_reverse, List.reverse_append, List.reverse_cons] at hjoin
      exact hjoin.symm
    have htake := List.prefix_iff_eq_take.1 (hfront.trans hprefix)
    refine ⟨back.reverse, ?_⟩
    rw [← hc, htake]
    simp

lemma take_of_quoted {quote : Char} {cs : List Char} {n : Nat}
    (h : (Pattern.quoted quote).length? cs = some n) :
    ∃ body, cs.take n = quote :: body ++ [quote] := by
  cases cs with
  | nil => cases h
  | cons c cs =>
    simp only [Pattern.quoted] at h
    by_cases hc : c = quote
    · rw [if_pos hc] at h
      obtain ⟨m, hm, rfl⟩ := Option.map_eq_some_iff.1 h
      obtain ⟨body, hbody⟩ := quotedTail?_eq_some hm
      exact ⟨body, by rw [List.take_succ_cons, hbody, hc]; rfl⟩
    · rw [if_neg hc] at h
      cases h

/-- A quoted text begins and ends with the same quote. -/
theorem quotes_of_string {text : String} (h : Kind.string.Spells text) :
    ∃ quote body, (quote = '\x27' ∨ quote = '\x22') ∧ text.toList = quote :: body ++ [quote] := by
  obtain ⟨pattern, hpattern, cs, n, hlength, rfl⟩ := h
  have hkind : Kind.string.patterns = [.quoted '\x27', .quoted '\x22'] := rfl
  rw [hkind, List.mem_cons, List.mem_singleton] at hpattern
  rcases hpattern with rfl | rfl
  · obtain ⟨body, hbody⟩ := take_of_quoted hlength
    exact ⟨'\x27', body, Or.inl rfl, by rw [String.toList_ofList, hbody]⟩
  · obtain ⟨body, hbody⟩ := take_of_quoted hlength
    exact ⟨'\x22', body, Or.inr rfl, by rw [String.toList_ofList, hbody]⟩

/-- A big integer is digits with one letter behind them. -/
theorem digits_of_bigInt {text : String} (h : Kind.bigInt.Spells text) :
    ∃ digits, (∀ c ∈ digits, c.isDigit = true) ∧ text.toList = digits ++ ['n'] := by
  obtain ⟨pattern, hpattern, cs, n, hlength, rfl⟩ := h
  have hkind : Kind.bigInt.patterns = [.bigInt] := rfl
  rw [hkind, List.mem_singleton] at hpattern
  subst hpattern
  simp only [Pattern.bigInt] at hlength
  split at hlength
  next => cases hlength
  next m hrun =>
    split at hlength
    next hletter =>
      cases hlength
      obtain ⟨rest, hrest⟩ := List.head?_eq_some_iff.1 hletter
      have hcs : cs.takeWhile Char.isDigit ++ 'n' :: rest = cs := by
        have hdrop := drop_runLength Char.isDigit cs
        rw [hrun] at hdrop
        rw [← hrest, hdrop, List.takeWhile_append_dropWhile]
      have hdigits : ∀ c ∈ cs.takeWhile Char.isDigit, c.isDigit = true :=
        fun c hc => List.mem_takeWhile_imp hc
      have hm : (cs.takeWhile Char.isDigit).length = m + 1 := hrun
      generalize cs.takeWhile Char.isDigit = digits at hcs hdigits hm
      subst hcs
      refine ⟨digits, hdigits, ?_⟩
      have hn : m + 2 = digits.length + 1 := by omega
      rw [String.toList_ofList, hn, List.take_length_add_append]
      rfl
    next => cases hlength

lemma regexBody?_eq_some {cs : List Char} {n : Nat} (h : regexBody? cs = some n) :
    ∃ rest, cs = cs.take n ++ '/' :: rest := by
  fun_induction regexBody? cs generalizing n with
  | case1 => cases h
  | case2 cs =>
    cases h
    exact ⟨cs, rfl⟩
  | case3 => cases h
  | case4 => cases h
  | case5 => cases h
  | case6 c cs hc ih =>
    obtain ⟨m, hm, rfl⟩ := Option.map_eq_some_iff.1 h
    obtain ⟨rest, hrest⟩ := ih hm
    exact ⟨rest, by simpa using hrest⟩
  | case7 c cs _ _ _ _ _ ih =>
    obtain ⟨m, hm, rfl⟩ := Option.map_eq_some_iff.1 h
    obtain ⟨rest, hrest⟩ := ih hm
    exact ⟨rest, by simpa using hrest⟩

/-- A regular expression is a body between slashes that is not empty, and letters, of which none is
a slash. -/
theorem slashes_of_regex {text : String} (h : Kind.regex.Spells text) :
    ∃ body flags, body ≠ [] ∧ '/' ∉ flags ∧ text.toList = '/' :: body ++ '/' :: flags := by
  obtain ⟨pattern, hpattern, cs, n, hlength, rfl⟩ := h
  have hkind : Kind.regex.patterns = [.regex] := rfl
  rw [hkind, List.mem_singleton] at hpattern
  subst hpattern
  simp only [Pattern.regex] at hlength
  split at hlength
  next cs =>
    split at hlength
    next m hbody =>
      obtain ⟨rest, hrest⟩ := regexBody?_eq_some hbody
      have hlen : (cs.take (m + 1)).length = m + 1 := by
        have hcs := congrArg List.length hrest
        rw [List.length_append, List.length_take, List.length_cons] at hcs
        rw [List.length_take]
        omega
      generalize cs.take (m + 1) = body at hrest hlen
      subst hrest
      have hdrop : (body ++ '/' :: rest).drop (m + 2) = rest := by
        have hn : m + 2 = body.length + 1 := by omega
        rw [hn, List.drop_length_add_append]
        rfl
      rw [hdrop] at hlength
      cases hlength
      refine ⟨body, rest.takeWhile Char.isLower, ?_, fun hslash => ?_, ?_⟩
      · rintro rfl
        cases hlen
      · have hlower : Char.isLower '/' = true := List.mem_takeWhile_imp hslash
        cases hlower
      · have hn : m + 3 + runLength Char.isLower rest =
            (body.length + (runLength Char.isLower rest + 1)) + 1 := by omega
        rw [String.toList_ofList, hn, List.take_succ_cons, List.take_length_add_append,
          List.take_succ_cons, take_runLength]
        rfl
    next => cases hlength
  next => cases hlength

lemma dropBytes_eq_some_iff {n : Nat} {cs rest : List Char} :
    dropBytes n cs = some rest ↔ ∃ front, cs = front ++ rest ∧ byteLength front = n := by
  constructor
  · intro h
    fun_induction dropBytes n cs with
    | case1 cs =>
      cases h
      exact ⟨[], rfl, rfl⟩
    | case2 => cases h
    | case3 n c cs hle ih =>
      obtain ⟨front, rfl, hfront⟩ := ih h
      exact ⟨c :: front, rfl, by rw [byteLength_cons, hfront]; omega⟩
    | case4 => cases h
  · rintro ⟨front, rfl, rfl⟩
    exact dropBytes_byteLength front rest

lemma takeBytes_eq_some_iff {n : Nat} {cs part : List Char} :
    takeBytes n cs = some part ↔ ∃ back, cs = part ++ back ∧ byteLength part = n := by
  constructor
  · intro h
    fun_induction takeBytes n cs generalizing part with
    | case1 cs =>
      cases h
      exact ⟨cs, rfl, rfl⟩
    | case2 => cases h
    | case3 n c cs hle ih =>
      obtain ⟨tail, htail, rfl⟩ := Option.map_eq_some_iff.1 h
      obtain ⟨back, rfl, hback⟩ := ih htail
      exact ⟨back, rfl, by rw [byteLength_cons, hback]; omega⟩
    | case4 => cases h
  · rintro ⟨back, rfl, rfl⟩
    exact takeBytes_byteLength part back

/-- A slice is there if both of its ends are ends of characters of the text. -/
theorem slice?_eq_some_iff {text part : String} {start stop : Nat} :
    slice? text start stop = some part ↔ ∃ front back, text.toList = front ++ part.toList ++ back ∧
      byteLength front = start ∧ start + byteLength part.toList = stop := by
  unfold slice?
  constructor
  · intro h
    split at h
    next hle =>
      obtain ⟨chars, hchars, rfl⟩ := Option.map_eq_some_iff.1 h
      obtain ⟨rest, hdrop, htake⟩ := Option.bind_eq_some_iff.1 hchars
      obtain ⟨front, htext, hfront⟩ := dropBytes_eq_some_iff.1 hdrop
      obtain ⟨back, rfl, hback⟩ := takeBytes_eq_some_iff.1 htake
      rw [String.toList_ofList]
      exact ⟨front, back, by rw [htext, List.append_assoc], hfront, by omega⟩
    next => cases h
  · rintro ⟨front, back, htext, rfl, rfl⟩
    rw [if_pos (Nat.le_add_right _ _), htext, List.append_assoc, dropBytes_byteLength,
      Option.bind_some, Nat.add_sub_cancel_left, takeBytes_byteLength, Option.map_some,
      String.ofList_toList]

lemma slice?_eq {text : String} {a b c : List Char} {start stop : Nat}
    (htext : text.toList = a ++ b ++ c) (hstart : byteLength a = start)
    (hstop : start + byteLength b = stop) : slice? text start stop = some (String.ofList b) := by
  rw [slice?_eq_some_iff, String.toList_ofList]
  exact ⟨a, c, htext, hstart, hstop⟩

lemma lastOffset?_eq {text : String} {front back : List Char} {c : Char} (hback : c ∉ back)
    (htext : text.toList = front ++ c :: back) : lastOffset? c text = some (byteLength front) := by
  have hother : ∀ d ∈ back.reverse, (d != c) = true := by
    intro d hd
    rw [bne_iff_ne]
    rintro rfl
    exact hback (List.mem_reverse.1 hd)
  have hdrop : text.toList.reverse.dropWhile (· != c) = c :: front.reverse := by
    rw [htext, List.reverse_append, List.reverse_cons, List.append_assoc,
      List.dropWhile_append_of_pos hother]
    simp
  unfold lastOffset?
  simp only [hdrop, List.reverse_reverse]

/-- A quoted text is cut behind its first character and in front of its last one. -/
theorem unquoted?_eq {text : String} {quote : Char} {body : List Char} (h : Kind.string.Spells text)
    (htext : text.toList = quote :: body ++ [quote]) :
    unquoted? text = some (String.ofList body) := by
  have hquote : byteLength [quote] = 1 := by
    obtain ⟨other, body', hother, htext'⟩ := quotes_of_string h
    rw [htext] at htext'
    obtain ⟨rfl, -⟩ := List.cons.inj htext'
    rcases hother with rfl | rfl <;> rfl
  refine slice?_eq (a := [quote]) htext hquote ?_
  rw [htext, byteLength_append, hquote, byteLength_cons]
  rw [byteLength_cons, byteLength_nil] at hquote
  omega

/-- So a quoted text is its quotes with what is cut out between them. -/
theorem exists_unquoted {text : String} (h : Kind.string.Spells text) :
    ∃ quote value, (quote = "'" ∨ quote = "\x22") ∧ unquoted? text = some value ∧
      text = quote ++ value ++ quote := by
  obtain ⟨quote, body, hquote, htext⟩ := quotes_of_string h
  refine ⟨String.singleton quote, String.ofList body, ?_, unquoted?_eq h htext, ?_⟩
  · rcases hquote with rfl | rfl
    · exact Or.inl rfl
    · exact Or.inr rfl
  · rw [← String.toList_inj, htext]
    simp

/-- A regular expression is cut behind its first slash and at its last one, which is the one in
front of its flags. -/
theorem exists_regexParts {text : String} (h : Kind.regex.Spells text) :
    ∃ close pattern flags, lastOffset? '/' text = some close ∧
      slice? text 1 close = some pattern ∧
      slice? text (close + 1) (byteLength text.toList) = some flags ∧
      pattern ≠ "" ∧ text = "/" ++ pattern ++ "/" ++ flags := by
  obtain ⟨body, flags, hne, hflags, htext⟩ := slashes_of_regex h
  have hfront : byteLength ('/' :: body) = 1 + byteLength body := rfl
  have hsplit : text.toList = ('/' :: body ++ ['/']) ++ flags ++ [] := by
    rw [htext]
    simp
  refine ⟨byteLength ('/' :: body), String.ofList body, String.ofList flags,
    lastOffset?_eq hflags htext, slice?_eq (a := ['/']) htext rfl rfl, slice?_eq hsplit ?_ ?_, ?_, ?_⟩
  · rw [byteLength_append]
    rfl
  · rw [hsplit, List.append_nil, byteLength_append, byteLength_append]
    rfl
  · rw [Ne, ← String.toList_inj, String.toList_ofList]
    exact hne
  · rw [← String.toList_inj, htext]
    simp

lemma regexParts?_eq {text pattern flags : String} {close : Nat}
    (hclose : lastOffset? '/' text = some close) (hpattern : slice? text 1 close = some pattern)
    (hflags : slice? text (close + 1) (byteLength text.toList) = some flags) :
    regexParts? text = some ⟨pattern, flags⟩ := by
  unfold regexParts?
  simp only [hclose, Option.getD_some, hpattern, hflags, Option.map_some]

end ScriptTree
