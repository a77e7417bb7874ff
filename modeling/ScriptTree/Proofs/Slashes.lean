import ScriptTree.Proofs.Regexes

/-!
# What a slash, a quote or a digit opens

A slash opens a comment, a regular expression or an operator, and which of them depends on text any
distance away; a quote opens a text only if another one stands on the same line. `Opens` says what
is read there without reference to the order of rules: each case excludes those before it.

Main statement: `Cursor.next_of_opens`.
-/

namespace ScriptTree

/-- What the front of a text is read as. -/
inductive Front where
  /-- Text that is passed over. -/
  | skipped (text : List Char)
  | token (kind : Kind) (text : List Char)
  /-- A character at which nothing is read. -/
  | refused (c : Char)

namespace Front

/-- The match of the lexical rules that stands for it, with what is behind it. -/
def match? (cs : List Char) : Front → Option (Option Kind × List Char × List Char)
  | skipped text => some (none, text, cs.drop text.length)
  | token kind text => some (some kind, text, cs.drop text.length)
  | refused _ => none

/-- The next token where it stands in front of a cursor, and the place behind that token. -/
def next (cursor : Cursor) : Front → Except SyntaxError Token × Cursor
  | skipped text => (⟨cursor.offset + byteLength text, cursor.rest.drop text.length⟩ : Cursor).next
  | token kind text =>
    (.ok ⟨kind, String.ofList text, .ofOffsets cursor.offset (cursor.offset + byteLength text)⟩,
      ⟨cursor.offset + byteLength text, cursor.rest.drop text.length⟩)
  | refused c =>
    (.error (.unsupportedCharacter c (.ofOffsets cursor.offset (cursor.offset + c.utf8Size))),
      cursor)

/-- The lexical rules read it at the front of a text. -/
def IsRead (cs : List Char) : Front → Prop
  | skipped text => text <+: cs ∧ Rule.first? cs = some (none, text.length)
  | token kind text => text <+: cs ∧ Rule.first? cs = some (some kind, text.length)
  | refused c => cs.head? = some c ∧ Rule.first? cs = none

variable {cs : List Char} {front other : Front}

lemma IsRead.firstMatch?_eq (h : front.IsRead cs) : Rule.firstMatch? cs = front.match? cs := by
  rw [Rule.firstMatch?_eq]
  cases front with
  | skipped text | token kind text =>
    obtain ⟨⟨rest, rfl⟩, hrule⟩ := h
    simp [hrule, match?]
  | refused c =>
    rw [h.2]
    rfl

/-- At most one thing is read at the front of a text. -/
lemma IsRead.unique (h : front.IsRead cs) (hother : other.IsRead cs) : other = front := by
  have hmatch := hother.firstMatch?_eq.symm.trans h.firstMatch?_eq
  cases front <;> cases other <;> simp only [match?] at hmatch <;> cases hmatch
  case skipped.skipped | token.token => rfl
  case refused.refused => exact congrArg refused (Option.some.inj (hother.1.symm.trans h.1))

lemma IsRead.next_eq {cursor : Cursor} (h : front.IsRead cursor.rest) :
    cursor.next = front.next cursor := by
  obtain ⟨offset, cs⟩ := cursor
  cases front with
  | skipped text =>
    obtain ⟨⟨rest, rfl⟩, hrule⟩ := h
    have hpos := Rule.pos_of_first? hrule
    obtain ⟨c, text, rfl⟩ := List.exists_cons_of_length_pos hpos
    have hnext : (⟨offset, c :: (text ++ rest)⟩ : Cursor).next = _ := Cursor.next_of_blanks hrule
    simpa [Cursor.skip, next] using hnext
  | token kind text =>
    obtain ⟨⟨rest, rfl⟩, hrule⟩ := h
    have hpos := Rule.pos_of_first? hrule
    obtain ⟨c, text, rfl⟩ := List.exists_cons_of_length_pos hpos
    have hnext : (⟨offset, c :: text ++ rest⟩ : Cursor).next = _ :=
      Cursor.next_of_first? hrule (List.cons_ne_nil c _)
    rw [hnext]
    simp [Cursor.skip, Cursor.token, next]
  | refused c =>
    obtain ⟨hhead, hrule⟩ := h
    obtain ⟨rest, rfl⟩ := List.head?_eq_some_iff.1 hhead
    rw [Cursor.next_of_fault hrule]
    simp [Cursor.skip, next]

end Front

/-- A run of characters of a class that goes on as long as it can. -/
def IsRun (p : Char → Bool) (run rest : List Char) : Prop :=
  (∀ c ∈ run, p c = true) ∧ rest.head?.any p = false

/-- The body of a regular expression: pairs of a backslash and a character of the line, and other
characters than slashes. A slash behind it ends it. -/
inductive IsBody : List Char → Prop where
  | nil : IsBody []
  | escaped {c : Char} {body : List Char} (hc : c ≠ '\n') (h : IsBody body) :
      IsBody ('\\' :: c :: body)
  | plain {c : Char} {body : List Char} (hc : c ≠ '/' ∧ c ≠ '\\' ∧ c ≠ '\n') (h : IsBody body) :
      IsBody (c :: body)

/-- No comment begins with a slash in front of this text. -/
def NoComment (cs : List Char) : Prop :=
  cs.head? ≠ some '/' ∧ ∀ tail, cs = '*' :: tail → ¬['*', '/'] <:+: tail

/-- No regular expression begins with a slash in front of this text. -/
def NoRegex (cs : List Char) : Prop :=
  ∀ body rest, IsBody body → body ++ '/' :: rest = cs → body = []

/-- A dot and digits. -/
def IsFraction (text rest : List Char) : Prop :=
  ∃ digits, digits ≠ [] ∧ IsRun Char.isDigit digits rest ∧ text = '.' :: digits

/-- Digits, with a sign or without. -/
def IsSigned (text rest : List Char) : Prop :=
  ∃ sign digits, (sign = [] ∨ sign = ['+'] ∨ sign = ['-']) ∧ digits ≠ [] ∧
    IsRun Char.isDigit digits rest ∧ text = sign ++ digits

/-- The letter E and digits, with a sign or without. -/
def IsExponent (text rest : List Char) : Prop :=
  ∃ letter number, (letter = 'e' ∨ letter = 'E') ∧ IsSigned number rest ∧ text = letter :: number

/-- A part that is there if it can be. -/
def IfPossible (part : List Char → List Char → Prop) (text rest : List Char) : Prop :=
  part text rest ∨ text = [] ∧ ∀ other behind, part other behind → other ++ behind ≠ rest

def IsQuote (c : Char) : Prop :=
  c = '\x27' ∨ c = '\x22'

/-- What is read at the front of a text that begins with a slash, a quote or a digit. -/
inductive Opens : List Char → Front → Prop where
  | lineComment {body rest : List Char} (hbody : IsRun (· != '\n') body rest) :
      Opens ('/' :: '/' :: body ++ rest) (.skipped ('/' :: '/' :: body))
  | blockComment {body rest : List Char} (hbody : ¬['*', '/'] <:+: body) :
      Opens ('/' :: '*' :: body ++ '*' :: '/' :: rest) (.skipped ('/' :: '*' :: body ++ ['*', '/']))
  | regex {body flags rest : List Char} (hcomment : NoComment (body ++ '/' :: (flags ++ rest)))
      (hbody : IsBody body) (hne : body ≠ []) (hflags : IsRun Char.isLower flags rest) :
      Opens ('/' :: (body ++ '/' :: (flags ++ rest))) (.token .regex ('/' :: body ++ '/' :: flags))
  | divideAssign {rest : List Char} (hcomment : NoComment ('=' :: rest))
      (hregex : NoRegex ('=' :: rest)) :
      Opens ('/' :: '=' :: rest) (.token .complexAssignment ['/', '='])
  | divide {rest : List Char} (hcomment : NoComment rest) (hregex : NoRegex rest)
      (hassign : rest.head? ≠ some '=') : Opens ('/' :: rest) (.token .multiplicative ['/'])
  | string {quote : Char} {body behind rest : List Char} (hquote : IsQuote quote)
      (hline : IsRun (· != '\n') (body ++ quote :: behind) rest) (hlast : quote ∉ behind) :
      Opens (quote :: (body ++ quote :: behind ++ rest)) (.token .string (quote :: body ++ [quote]))
  | loneQuote {quote : Char} {line rest : List Char} (hquote : IsQuote quote)
      (hline : IsRun (· != '\n') line rest) (hlone : quote ∉ line) :
      Opens (quote :: (line ++ rest)) (.refused quote)
  | bigInt {digits rest : List Char} (hne : digits ≠ [])
      (hdigits : IsRun Char.isDigit digits ('n' :: rest)) :
      Opens (digits ++ 'n' :: rest) (.token .bigInt (digits ++ ['n']))
  | number {digits fraction exponent rest : List Char} (hne : digits ≠ [])
      (hdigits : IsRun Char.isDigit digits (fraction ++ (exponent ++ rest)))
      (hsuffix : (fraction ++ (exponent ++ rest)).head? ≠ some 'n')
      (hfraction : IfPossible IsFraction fraction (exponent ++ rest))
      (hexponent : IfPossible IsExponent exponent rest) :
      Opens (digits ++ (fraction ++ (exponent ++ rest)))
        (.token .number (digits ++ fraction ++ exponent))

section Parts

variable {p : Char → Bool} {run rest cs : List Char}

lemma IsRun.takeWhile_eq (h : IsRun p run rest) : (run ++ rest).takeWhile p = run := by
  obtain ⟨hall, hend⟩ := h
  rw [List.takeWhile_append_of_pos hall]
  cases rest with
  | nil => simp
  | cons c rest =>
    have hc : p c = false := hend
    simp [hc]

lemma IsRun.dropWhile_eq (h : IsRun p run rest) : (run ++ rest).dropWhile p = rest := by
  have hsplit := @List.takeWhile_append_dropWhile _ p (run ++ rest)
  rw [h.takeWhile_eq] at hsplit
  exact List.append_cancel_left hsplit

lemma IsRun.runLength_eq (h : IsRun p run rest) : runLength p (run ++ rest) = run.length :=
  congrArg List.length h.takeWhile_eq

lemma isRun_takeWhile (p : Char → Bool) (cs : List Char) :
    IsRun p (cs.takeWhile p) (cs.dropWhile p) := by
  refine ⟨fun c hc => List.mem_takeWhile_imp hc, ?_⟩
  cases hrest : cs.dropWhile p with
  | nil => rfl
  | cons c rest =>
    have hc := List.head_dropWhile_not p (l := cs) (by simp [hrest])
    simpa [hrest] using hc

lemma exists_isRun (p : Char → Bool) (cs : List Char) :
    ∃ run rest, run ++ rest = cs ∧ IsRun p run rest :=
  ⟨_, _, List.takeWhile_append_dropWhile, isRun_takeWhile p cs⟩

lemma exists_ifPossible (part : List Char → List Char → Prop) (cs : List Char) :
    ∃ text rest, text ++ rest = cs ∧ IfPossible part text rest := by
  by_cases h : ∃ text rest, part text rest ∧ text ++ rest = cs
  · obtain ⟨text, rest, hpart, hcs⟩ := h
    exact ⟨text, rest, hcs, Or.inl hpart⟩
  · exact ⟨[], cs, rfl, Or.inr ⟨rfl, fun other behind hpart hcs => h ⟨other, behind, hpart, hcs⟩⟩⟩

lemma blockCommentTail?_append {body : List Char} (h : ¬['*', '/'] <:+: body) (rest : List Char) :
    blockCommentTail? (body ++ '*' :: '/' :: rest) = some (body.length + 2) := by
  induction body with
  | nil => rfl
  | cons c body ih =>
    have hbody : ¬['*', '/'] <:+: body := fun hinfix => h (List.infix_cons hinfix)
    rw [List.cons_append, blockCommentTail?.eq_3, ih hbody]
    · rfl
    · -- `*/` at the front would be there in the body, or end in front of the star
      intro tail hc htail
      subst hc
      cases body with
      | nil => cases htail
      | cons d body =>
        cases htail
        exact h ⟨[], body, rfl⟩

lemma not_infix_of_blockCommentTail? (h : blockCommentTail? cs = none) : ¬['*', '/'] <:+: cs := by
  fun_induction blockCommentTail? cs with
  | case1 => simp
  | case2 => cases h
  | case3 c cs hfront ih =>
    intro hinfix
    rcases List.infix_cons_iff.1 hinfix with ⟨tail, htail⟩ | hinside
    · cases htail
      exact hfront tail rfl rfl
    · exact ih (Option.map_eq_none_iff.1 h) hinside

lemma regexBody?_of_isBody {body : List Char} (h : IsBody body) (rest : List Char) :
    regexBody? (body ++ '/' :: rest) = some body.length := by
  induction h with
  | nil => rfl
  | escaped hc _ ih =>
    rw [List.cons_append, List.cons_append, regexBody?.eq_6 _ _ hc, ih]
    rfl
  | plain hc _ ih =>
    obtain ⟨hslash, hescape, hnewline⟩ := hc
    rw [List.cons_append, regexBody?.eq_7 _ _ hslash hnewline (fun h => absurd h hescape)
      (fun _ h => absurd h hescape) (fun _ _ h => absurd h hescape), ih]
    rfl

lemma exists_isBody {n : Nat} (h : regexBody? cs = some n) :
    ∃ body rest, IsBody body ∧ body ++ '/' :: rest = cs ∧ body.length = n := by
  fun_induction regexBody? cs generalizing n with
  | case1 => cases h
  | case2 cs =>
    cases h
    exact ⟨[], cs, .nil, rfl, rfl⟩
  | case3 => cases h
  | case4 => cases h
  | case5 => cases h
  | case6 c cs hc ih =>
    obtain ⟨m, hm, rfl⟩ := Option.map_eq_some_iff.1 h
    obtain ⟨body, rest, hbody, rfl, rfl⟩ := ih hm
    exact ⟨'\\' :: c :: body, rest, .escaped hc hbody, rfl, rfl⟩
  | case7 c cs hslash hnewline hlast hescaped hescape ih =>
    obtain ⟨m, hm, rfl⟩ := Option.map_eq_some_iff.1 h
    obtain ⟨body, rest, hbody, rfl, rfl⟩ := ih hm
    have hc : c ≠ '\\' := by
      rintro rfl
      cases body with
      | nil => exact hescape '/' rest rfl rfl
      | cons d body => exact hescape d _ rfl rfl
    exact ⟨c :: body, rest, .plain ⟨hslash, hc, hnewline⟩ hbody, rfl, rfl⟩

lemma first?_slash (cs : List Char) : Rule.first? ('/' :: cs) =
    ((Pattern.lineComment.length? ('/' :: cs)).map (none, ·)).or
      (((Pattern.blockComment.length? ('/' :: cs)).map (none, ·)).or
        (((Pattern.regex.length? ('/' :: cs)).map (some .regex, ·)).or
          (if cs.head? = some '=' then some (some .complexAssignment, 2)
            else some (some .multiplicative, 1)))) := by
  simp only [Rule.first?, Rule.table, Rule.blanks, Rule.literals, List.cons_append, List.nil_append,
    List.findSome?_cons, Rule.skip, Rule.make]
  cases Pattern.lineComment.length? ('/' :: cs) with
  | some n => rfl
  | none =>
  cases Pattern.blockComment.length? ('/' :: cs) with
  | some n => rfl
  | none =>
  cases Pattern.regex.length? ('/' :: cs) with
  | some n => rfl
  | none =>
  cases cs with
  | nil => rfl
  | cons c cs =>
    by_cases hc : c = '='
    · rw [hc]
      rfl
    · simp [Rule.punctuation, Rule.operators, Rule.make, Pattern.oneOf, Pattern.run, Pattern.bigInt,
        Pattern.number, Pattern.quoted, runLength, isBlank, firstWord?, hc, Ne.symm hc]

lemma NoComment.length?_eq_none (h : NoComment cs) :
    Pattern.lineComment.length? ('/' :: cs) = none ∧
      Pattern.blockComment.length? ('/' :: cs) = none := by
  obtain ⟨hline, hblock⟩ := h
  constructor
  · simp only [Pattern.lineComment]
    split
    next hcs =>
      cases hcs
      exact absurd rfl hline
    next => rfl
  · simp only [Pattern.blockComment]
    split
    next tail hcs =>
      cases hcs
      rw [Option.map_eq_none_iff]
      by_contra hsome
      obtain ⟨n, hn⟩ := Option.ne_none_iff_exists'.1 hsome
      obtain ⟨body, -, hbody, -⟩ := blockCommentTail?_eq_some hn
      refine hblock tail rfl ⟨body, tail.drop n, ?_⟩
      rw [List.append_assoc]
      exact hbody.symm
    next => rfl

lemma regex_length? (cs : List Char) : Pattern.regex.length? ('/' :: cs) =
    match regexBody? cs with
    | some (n + 1) => some (n + 3 + runLength Char.isLower (cs.drop (n + 2)))
    | _ => none :=
  rfl

lemma NoRegex.length?_eq_none (h : NoRegex cs) : Pattern.regex.length? ('/' :: cs) = none := by
  rw [regex_length?]
  split
  next n hn =>
    obtain ⟨body, rest, hbody, hcs, hlength⟩ := exists_isBody hn
    rw [h body rest hbody hcs] at hlength
    cases hlength
  next => rfl

lemma regex_length?_of_isBody {body flags : List Char} (hbody : IsBody body) (hne : body ≠ [])
    (hflags : IsRun Char.isLower flags rest) :
    Pattern.regex.length? ('/' :: (body ++ '/' :: (flags ++ rest))) =
      some (body.length + 2 + flags.length) := by
  obtain ⟨n, hn⟩ := Nat.exists_eq_succ_of_ne_zero (List.length_pos_iff.2 hne).ne'
  have hdrop : (body ++ '/' :: (flags ++ rest)).drop (n + 2) = flags ++ rest := by
    have hcount : n + 2 = body.length + 1 := by omega
    rw [hcount, List.drop_length_add_append]
    rfl
  rw [regex_length?, regexBody?_of_isBody hbody, hn]
  simp only [hdrop, hflags.runLength_eq]

lemma first?_quote {quote : Char} (hquote : IsQuote quote) (cs : List Char) :
    Rule.first? (quote :: cs) = (quotedTail? quote cs).map fun n => (some .string, n + 1) := by
  have hlength : (Pattern.quoted quote).length? (quote :: cs) =
      (quotedTail? quote cs).map (· + 1) := by
    simp [Pattern.quoted]
  rcases hquote with rfl | rfl <;>
    simp only [Rule.first?, Rule.table, Rule.blanks, Rule.literals, List.cons_append,
      List.nil_append, List.findSome?_cons, Rule.skip, Rule.make, hlength]
  · cases quotedTail? '\x27' cs <;> rfl
  · cases quotedTail? '\x22' cs <;> rfl

lemma quotedTail?_of_last {quote : Char} {body behind : List Char}
    (hline : IsRun (· != '\n') (body ++ quote :: behind) rest) (hlast : quote ∉ behind) :
    quotedTail? quote (body ++ quote :: behind ++ rest) = some (body.length + 1) := by
  have hall : ∀ c ∈ behind.reverse, (c != quote) = true := by
    intro c hc
    rw [bne_iff_ne]
    rintro rfl
    exact hlast (List.mem_reverse.1 hc)
  refine quotedTail?_eq_some_iff.2 ⟨Nat.succ_ne_zero _, ?_⟩
  rw [hline.takeWhile_eq, List.reverse_append, List.reverse_cons, List.append_assoc,
    List.dropWhile_append_of_pos hall]
  simp

lemma quotedTail?_of_notMem {quote : Char} {line : List Char} (hline : IsRun (· != '\n') line rest)
    (hlone : quote ∉ line) : quotedTail? quote (line ++ rest) = none := by
  have hall : ∀ c ∈ line.reverse, (c != quote) = true := by
    intro c hc
    rw [bne_iff_ne]
    rintro rfl
    exact hlone (List.mem_reverse.1 hc)
  have hnil : line.reverse.dropWhile (· != quote) = [] := List.dropWhile_eq_nil_iff.2 hall
  unfold quotedTail?
  rw [hline.takeWhile_eq, hnil]
  rfl

lemma exists_isRun_of_runLength {n : Nat} (h : runLength p cs = n + 1) :
    ∃ run rest, run ≠ [] ∧ IsRun p run rest ∧ run ++ rest = cs := by
  obtain ⟨run, rest, rfl, hrun⟩ := exists_isRun p cs
  refine ⟨run, rest, ?_, hrun, rfl⟩
  rintro rfl
  rw [hrun.runLength_eq] at h
  cases h

lemma IsRun.exists_runLength (h : IsRun p run rest) (hne : run ≠ []) :
    ∃ n, run.length = n + 1 ∧ runLength p (run ++ rest) = n + 1 := by
  obtain ⟨n, hn⟩ := Nat.exists_eq_succ_of_ne_zero (List.length_pos_iff.2 hne).ne'
  exact ⟨n, hn, h.runLength_eq.trans hn⟩

lemma fractionLength_of_ifPossible {fraction : List Char}
    (h : IfPossible IsFraction fraction rest) :
    fractionLength (fraction ++ rest) = fraction.length := by
  rcases h with ⟨digits, hne, hdigits, rfl⟩ | ⟨rfl, hnone⟩
  · obtain ⟨n, hlength, hrun⟩ := hdigits.exists_runLength hne
    rw [List.cons_append, fractionLength, hrun, List.length_cons, hlength]
  · simp only [List.nil_append, fractionLength, List.length_nil]
    split
    next cs =>
      split
      next => rfl
      next n hrun =>
        obtain ⟨digits, behind, hne, hdigits, rfl⟩ := exists_isRun_of_runLength hrun
        exact absurd rfl (hnone _ behind ⟨digits, hne, hdigits, rfl⟩)
    next => rfl

lemma IsSigned.exists_length {number : List Char} (h : IsSigned number rest) :
    ∃ n, number.length = n + 1 ∧ signedDigitsLength (number ++ rest) = n + 1 := by
  obtain ⟨sign, digits, hsign, hne, hdigits, rfl⟩ := h
  obtain ⟨n, hlength, hrun⟩ := hdigits.exists_runLength hne
  have hsigned : ∀ {c : Char}, (c == '+' || c == '-') = true →
      signedDigitsLength (c :: (digits ++ rest)) = n + 2 := by
    intro c hc
    rw [signedDigitsLength, if_pos hc, hrun]
  rcases hsign with rfl | rfl | rfl
  · obtain ⟨d, ds, rfl⟩ := List.exists_cons_of_ne_nil hne
    have hd : d.isDigit = true := hdigits.1 d List.mem_cons_self
    have hsign : ¬(d == '+' || d == '-') = true := by
      rw [Bool.or_eq_true, beq_iff_eq, beq_iff_eq]
      rintro (rfl | rfl) <;> cases hd
    refine ⟨n, hlength, ?_⟩
    rw [List.nil_append, List.cons_append, signedDigitsLength, if_neg hsign]
    exact hrun
  · exact ⟨n + 1, congrArg Nat.succ hlength, hsigned rfl⟩
  · exact ⟨n + 1, congrArg Nat.succ hlength, hsigned rfl⟩

lemma exists_isSigned {n : Nat} (h : signedDigitsLength cs = n + 1) :
    ∃ number behind, IsSigned number behind ∧ number ++ behind = cs := by
  cases cs with
  | nil => cases h
  | cons c cs =>
    rw [signedDigitsLength] at h
    split at h
    next hsign =>
      split at h
      next => cases h
      next m hrun =>
        obtain ⟨digits, behind, hne, hdigits, rfl⟩ := exists_isRun_of_runLength hrun
        rw [Bool.or_eq_true, beq_iff_eq, beq_iff_eq] at hsign
        refine ⟨c :: digits, behind, ⟨[c], digits, Or.inr ?_, hne, hdigits, rfl⟩, rfl⟩
        exact hsign.imp (congrArg ([·])) (congrArg ([·]))
    next =>
      obtain ⟨digits, behind, hne, hdigits, hcs⟩ := exists_isRun_of_runLength h
      exact ⟨digits, behind, ⟨[], digits, Or.inl rfl, hne, hdigits, rfl⟩, hcs⟩

lemma exponentLength_of_ifPossible {exponent : List Char}
    (h : IfPossible IsExponent exponent rest) :
    exponentLength (exponent ++ rest) = exponent.length := by
  rcases h with ⟨letter, number, hletter, hnumber, rfl⟩ | ⟨rfl, hnone⟩
  · obtain ⟨n, hlength, hsigned⟩ := hnumber.exists_length
    have hmark : (letter == 'e' || letter == 'E') = true := by simpa using hletter
    rw [List.cons_append, exponentLength, if_pos hmark, hsigned, List.length_cons, hlength]
  · rw [List.nil_append, List.length_nil]
    cases rest with
    | nil => rfl
    | cons c cs =>
      rw [exponentLength]
      split
      next hmark =>
        split
        next => rfl
        next n hsigned =>
          obtain ⟨number, behind, hnumber, rfl⟩ := exists_isSigned hsigned
          rw [Bool.or_eq_true, beq_iff_eq, beq_iff_eq] at hmark
          exact absurd rfl (hnone _ behind ⟨c, number, hmark, hnumber, rfl⟩)
      next => rfl

lemma bigInt_length? {digits : List Char} (hne : digits ≠ [])
    (hdigits : IsRun Char.isDigit digits rest) :
    Pattern.bigInt.length? (digits ++ rest) =
      if rest.head? = some 'n' then some (digits.length + 1) else none := by
  obtain ⟨n, hlength, hrun⟩ := hdigits.exists_runLength hne
  simp only [Pattern.bigInt, hrun]
  rw [← hlength, List.drop_left, hlength]

lemma number_length? {digits : List Char} (hne : digits ≠ [])
    (hdigits : IsRun Char.isDigit digits rest) :
    Pattern.number.length? (digits ++ rest) = some (digits.length + fractionLength rest +
      exponentLength (rest.drop (fractionLength rest))) := by
  obtain ⟨n, hlength, hrun⟩ := hdigits.exists_runLength hne
  simp only [Pattern.number, hrun]
  rw [← hlength, List.drop_left, List.drop_length_add_append]

lemma first?_digits {digits : List Char} (hne : digits ≠ [])
    (hdigits : IsRun Char.isDigit digits rest) :
    Rule.first? (digits ++ rest) =
      ((Pattern.bigInt.length? (digits ++ rest)).map (some .bigInt, ·)).or
        ((Pattern.number.length? (digits ++ rest)).map (some .number, ·)) := by
  have hnumber := number_length? hne hdigits
  obtain ⟨c, cs, rfl⟩ := List.exists_cons_of_ne_nil hne
  have hc : c.isDigit = true := hdigits.1 c List.mem_cons_self
  have hother : ∀ {x : Char}, x.isDigit = false → c ≠ x := by
    rintro x hx rfl
    rw [hc] at hx
    cases hx
  rw [List.cons_append] at hnumber ⊢
  have hrun : (Pattern.run isBlank).length? (c :: (cs ++ rest)) = none := by
    simp [Pattern.run, runLength, isBlank, hother]
  have hline : Pattern.lineComment.length? (c :: (cs ++ rest)) = none := by
    simp [Pattern.lineComment, hother]
  have hblock : Pattern.blockComment.length? (c :: (cs ++ rest)) = none := by
    simp [Pattern.blockComment, hother]
  simp only [Rule.first?, Rule.table, Rule.blanks, Rule.literals, List.cons_append, List.nil_append,
    List.findSome?_cons, Rule.skip, Rule.make, hrun, hline, hblock, hnumber, Option.map_none,
    Option.map_some]
  cases Pattern.bigInt.length? (c :: (cs ++ rest)) <;> rfl

end Parts

/-- What is opened is what the rules read. -/
lemma Opens.isRead {cs : List Char} {front : Front} (h : Opens cs front) : front.IsRead cs := by
  cases h with
  | @lineComment body rest hbody =>
    have hlength : Pattern.lineComment.length? ('/' :: '/' :: (body ++ rest)) =
        some (body.length + 2) :=
      congrArg (fun n => some (n + 2)) hbody.runLength_eq
    refine ⟨List.prefix_append _ rest, ?_⟩
    rw [List.cons_append, List.cons_append, first?_slash, hlength]
    rfl
  | @blockComment body rest hbody =>
    have hlength : Pattern.blockComment.length? ('/' :: '*' :: (body ++ '*' :: '/' :: rest)) =
        some (body.length + 4) :=
      congrArg (Option.map (· + 2)) (blockCommentTail?_append hbody rest)
    refine ⟨⟨rest, by simp⟩, ?_⟩
    rw [List.cons_append, List.cons_append, first?_slash, hlength]
    simp [Pattern.lineComment]
  | @regex body flags rest hcomment hbody hne hflags =>
    obtain ⟨hline, hblock⟩ := hcomment.length?_eq_none
    refine ⟨⟨rest, by simp⟩, ?_⟩
    rw [first?_slash, hline, hblock, regex_length?_of_isBody hbody hne hflags]
    simp
    omega
  | @divideAssign rest hcomment hregex =>
    obtain ⟨hline, hblock⟩ := hcomment.length?_eq_none
    refine ⟨List.prefix_append ['/', '='] rest, ?_⟩
    rw [first?_slash, hline, hblock, hregex.length?_eq_none]
    rfl
  | @divide rest hcomment hregex hassign =>
    obtain ⟨hline, hblock⟩ := hcomment.length?_eq_none
    refine ⟨List.prefix_append ['/'] rest, ?_⟩
    rw [first?_slash, hline, hblock, hregex.length?_eq_none, if_neg hassign]
    rfl
  | @string quote body behind rest hquote hline hlast =>
    refine ⟨⟨behind ++ rest, by simp⟩, ?_⟩
    rw [first?_quote hquote, quotedTail?_of_last hline hlast]
    simp
  | @loneQuote quote line rest hquote hline hlone =>
    refine ⟨rfl, ?_⟩
    rw [first?_quote hquote, quotedTail?_of_notMem hline hlone]
    rfl
  | @bigInt digits rest hne hdigits =>
    refine ⟨⟨rest, by simp⟩, ?_⟩
    rw [first?_digits hne hdigits, bigInt_length? hne hdigits]
    simp
  | @number digits fraction exponent rest hne hdigits hsuffix hfraction hexponent =>
    refine ⟨⟨rest, by simp⟩, ?_⟩
    rw [first?_digits hne hdigits, bigInt_length? hne hdigits, if_neg hsuffix,
      number_length? hne hdigits, fractionLength_of_ifPossible hfraction, List.drop_left,
      exponentLength_of_ifPossible hexponent]
    simp [Nat.add_assoc]

lemma exists_opens_slash (cs : List Char) : ∃ front, Opens ('/' :: cs) front := by
  by_cases hline : cs.head? = some '/'
  · obtain ⟨tail, rfl⟩ := List.head?_eq_some_iff.1 hline
    obtain ⟨body, rest, rfl, hbody⟩ := exists_isRun (· != '\n') tail
    exact ⟨_, .lineComment hbody⟩
  by_cases hblock : ∃ tail, cs = '*' :: tail ∧ ∃ n, blockCommentTail? tail = some n
  · obtain ⟨tail, rfl, n, hn⟩ := hblock
    obtain ⟨body, hbody, htail, -⟩ := blockCommentTail?_eq_some hn
    have hopens : Opens ('/' :: '*' :: body ++ '*' :: '/' :: tail.drop n) _ := .blockComment hbody
    rw [List.cons_append, List.cons_append, ← htail] at hopens
    exact ⟨_, hopens⟩
  have hcomment : NoComment cs := by
    refine ⟨hline, fun tail htail => not_infix_of_blockCommentTail? ?_⟩
    by_contra hsome
    exact hblock ⟨tail, htail, Option.ne_none_iff_exists'.1 hsome⟩
  by_cases hregex : NoRegex cs
  · by_cases hassign : cs.head? = some '='
    · obtain ⟨tail, rfl⟩ := List.head?_eq_some_iff.1 hassign
      exact ⟨_, .divideAssign hcomment hregex⟩
    · exact ⟨_, .divide hcomment hregex hassign⟩
  · unfold NoRegex at hregex
    push Not at hregex
    obtain ⟨body, rest, hbody, rfl, hne⟩ := hregex
    obtain ⟨flags, rest, rfl, hflags⟩ := exists_isRun Char.isLower rest
    exact ⟨_, .regex hcomment hbody hne hflags⟩

lemma exists_opens_quote {quote : Char} (hquote : IsQuote quote) (cs : List Char) :
    ∃ front, Opens (quote :: cs) front := by
  obtain ⟨line, rest, rfl, hline⟩ := exists_isRun (· != '\n') cs
  by_cases hmem : quote ∈ line
  · -- the last quote is the first one from the end
    obtain ⟨back, front, hsplit, hback⟩ := List.eq_append_cons_of_mem (List.mem_reverse.2 hmem)
    have hfront : line = front.reverse ++ quote :: back.reverse := by
      have hreverse := congrArg List.reverse hsplit
      simpa using hreverse
    subst hfront
    exact ⟨_, .string hquote hline fun h => hback (List.mem_reverse.1 h)⟩
  · exact ⟨_, .loneQuote hquote hline hmem⟩

lemma exists_opens_digit {c : Char} (hc : c.isDigit = true) (cs : List Char) :
    ∃ front, Opens (c :: cs) front := by
  obtain ⟨digits, rest, hcs, hdigits⟩ := exists_isRun Char.isDigit (c :: cs)
  have hne : digits ≠ [] := by
    rintro rfl
    have hend := hdigits.2
    rw [show rest = c :: cs from hcs, List.head?_cons, Option.any_some, hc] at hend
    cases hend
  rw [← hcs]
  by_cases hsuffix : rest.head? = some 'n'
  · obtain ⟨tail, rfl⟩ := List.head?_eq_some_iff.1 hsuffix
    exact ⟨_, .bigInt hne hdigits⟩
  · obtain ⟨fraction, behind, rfl, hfraction⟩ := exists_ifPossible IsFraction rest
    obtain ⟨exponent, rest, rfl, hexponent⟩ := exists_ifPossible IsExponent behind
    exact ⟨_, .number hne hdigits hsuffix hfraction hexponent⟩

/-- Something is opened by every slash, quote and digit. -/
lemma exists_opens {c : Char} (hc : c = '/' ∨ IsQuote c ∨ c.isDigit = true) (cs : List Char) :
    ∃ front, Opens (c :: cs) front := by
  rcases hc with rfl | hquote | hdigit
  · exact exists_opens_slash cs
  · exact exists_opens_quote hquote cs
  · exact exists_opens_digit hdigit cs

/-- In front of a slash, a quote or a digit exactly one reading is open. It is what a backtracking
matcher finds with the first regular expression of the lexical rules that matches at all, and what
the next token is made of. -/
theorem Cursor.next_of_opens {cursor : Cursor} {c : Char} {cs : List Char}
    (hrest : cursor.rest = c :: cs) (hc : c = '/' ∨ IsQuote c ∨ c.isDigit = true) :
    (∃! front, Opens cursor.rest front) ∧ ∀ front, Opens cursor.rest front →
      Rule.firstMatch? cursor.rest = front.match? cursor.rest ∧
        cursor.next = front.next cursor := by
  obtain ⟨front, hopens⟩ := exists_opens hc cs
  rw [← hrest] at hopens
  refine ⟨⟨front, hopens, fun other hother => hopens.isRead.unique hother.isRead⟩, ?_⟩
  exact fun other hother => ⟨hother.isRead.firstMatch?_eq, hother.isRead.next_eq⟩

/-- A slash that would assign if no other slash followed it. -/
theorem Cursor.next_of_closed_slash :
    Opens "/=/g /".toList (.token .regex "/=/g".toList) ∧
      (⟨7, "/=/g /".toList⟩ : Cursor).next =
        (.ok ⟨.regex, "/=/g", ⟨7, 11⟩⟩, ⟨11, " /".toList⟩) := by
  have hopens : Opens ('/' :: (['='] ++ '/' :: (['g'] ++ [' ', '/'])))
      (.token .regex ('/' :: ['='] ++ '/' :: ['g'])) := by
    refine .regex ?_ ?_ (by decide) ?_
    · exact ⟨by decide, fun tail htail => by cases htail⟩
    · exact .plain (by decide) .nil
    · exact ⟨List.all_eq_true.1 rfl, rfl⟩
  have hnext := (@Cursor.next_of_opens ⟨7, "/=/g /".toList⟩ _ _ rfl (Or.inl rfl)).2 _ hopens
  exact ⟨hopens, hnext.2⟩

end ScriptTree
