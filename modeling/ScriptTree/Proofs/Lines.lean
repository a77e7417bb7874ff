import ScriptTree.Proofs.LineEnds
import ScriptTree.Proofs.Reading

/-!
# One lexeme on each line

A line feed ends every lexeme in front of it, except that `function` may go on to a star. So texts
that are tokens by themselves are read back as these tokens when each has a line of its own.
-/

namespace ScriptTree

/-- The kind of the token that a text begins with. -/
def kindOf (text : String) : Kind :=
  match Rule.first? text.toList with
  | some (some kind, _) => kind
  | _ => .endOfFile

lemma kindOf_function : kindOf "function" = .kwFunction := by
  decide +kernel

/-- A text with its kind. -/
def lexemeOf (text : String) : Kind × String :=
  (kindOf text, text)

/-- A text is one token of a kind. -/
def IsToken (kind : Kind) (text : String) : Prop :=
  (scanSource text).1.map Token.lexeme = [(kind, text)] ∧ ∃ last, (scanSource text).2 = .ok last

/-- A text that is the same token at the end of any line. -/
def OnLine (text : String) : Prop :=
  ∀ rest, EndsLine rest →
    Rule.first? (text.toList ++ rest) = some (some (kindOf text), text.toList.length)

namespace Cursor

lemma first?_blank {c : Char} (hc : isBlank c = true) (cs : List Char) :
    Rule.first? (c :: cs) = some (none, runLength isBlank cs + 1) := by
  have hrun : (Pattern.run isBlank).length? (c :: cs) = some (runLength isBlank cs + 1) := by
    simp [Pattern.run, runLength, hc]
  unfold Rule.first? Rule.table Rule.blanks
  simp only [List.cons_append, List.findSome?_cons, Rule.skip, hrun, Option.map_some]

lemma next_of_blanks {offset n : Nat} {c : Char} {cs : List Char}
    (h : Rule.first? (c :: cs) = some (none, n)) :
    (⟨offset, c :: cs⟩ : Cursor).next = ((⟨offset, c :: cs⟩ : Cursor).skip n).next := by
  rw [next]
  split
  next hrest => cases hrest
  next =>
    split
    next hrule => rw [h] at hrule; cases hrule
    next m hrule => rw [h] at hrule; cases hrule; rfl
    next hrule => rw [h] at hrule; cases hrule

/-- A blank in front of a text changes nothing but offsets. -/
lemma next_blank {c : Char} (hc : isBlank c = true) (offset : Nat) (cs : List Char) :
    (⟨offset, c :: cs⟩ : Cursor).next = (⟨offset + c.utf8Size, cs⟩ : Cursor).next := by
  rw [next_of_blanks (first?_blank hc cs)]
  cases cs with
  | nil => simp [skip, runLength]
  | cons d ds =>
    by_cases hd : isBlank d = true
    · rw [next_of_blanks (first?_blank hd ds)]
      simp [skip, runLength, hd, Nat.add_assoc]
    · simp [skip, runLength, hd]

lemma scan_congr {x y : Cursor} (h : x.next = y.next) : x.scan = y.scan := by
  rcases hy : y.next with ⟨e | token, after⟩
  · rw [scan_of_error hy, scan_of_error (h.trans hy)]
  · by_cases hkind : token.kind = .endOfFile
    · rw [scan_of_end hy hkind, scan_of_end (h.trans hy) hkind]
    · rw [scan_of_token hy hkind, scan_of_token (h.trans hy) hkind]

lemma next_of_first? {cursor : Cursor} {n : Nat} {kind : Kind}
    (h : Rule.first? cursor.rest = some (some kind, n)) (hne : cursor.rest ≠ []) :
    cursor.next = (.ok (cursor.token kind n), cursor.skip n) := by
  rw [next]
  split
  next hrest => exact absurd hrest hne
  next =>
    split
    next hrule => rw [h] at hrule; cases hrule; rfl
    next hrule => rw [h] at hrule; cases hrule
    next hrule => rw [h] at hrule; cases hrule

/-- The scan of a text that begins with a lexeme. -/
lemma scan_of_first? {offset n : Nat} {cs : List Char} {kind : Kind} (hne : cs ≠ [])
    (h : Rule.first? cs = some (some kind, n)) :
    (⟨offset, cs⟩ : Cursor).scan =
      ((⟨offset, cs⟩ : Cursor).token kind n :: ((⟨offset, cs⟩ : Cursor).skip n).scan.1,
        ((⟨offset, cs⟩ : Cursor).skip n).scan.2) :=
  scan_of_token (next_of_first? h hne) (Rule.kind_ne_endOfFile_of_first? h)

lemma next_of_fault {offset : Nat} {c : Char} {cs : List Char} (h : Rule.first? (c :: cs) = none) :
    (⟨offset, c :: cs⟩ : Cursor).next =
      (.error (.unsupportedCharacter c
        (.ofOffsets offset ((⟨offset, c :: cs⟩ : Cursor).skip 1).offset)), ⟨offset, c :: cs⟩) := by
  rw [next]
  split
  next hrest => cases hrest
  next hrest =>
    cases hrest
    split
    next hrule => rw [h] at hrule; cases hrule
    next hrule => rw [h] at hrule; cases hrule
    next => rfl

end Cursor

/-- The token that a rule reads at the front of the text that is left. -/
lemma exists_next (kind : Kind) {x : Cursor} (cs : List Char) {n : Nat} (hrest : x.rest = cs)
    (hrule : Rule.first? cs = some (some kind, n)) (hne : cs ≠ []) :
    ∃ t y, x.next = (.ok t, y) ∧ t.kind = kind ∧ t.text = String.ofList (cs.take n) ∧
      y.rest = cs.drop n := by
  subst hrest
  exact ⟨_, _, Cursor.next_of_first? hrule hne, rfl, rfl, rfl⟩

/-- The token behind a space. -/
lemma exists_next_space (kind : Kind) {x : Cursor} (cs : List Char) {n : Nat}
    (hrest : x.rest = ' ' :: cs) (hrule : Rule.first? cs = some (some kind, n)) (hne : cs ≠ []) :
    ∃ t y, x.next = (.ok t, y) ∧ t.kind = kind ∧ t.text = String.ofList (cs.take n) ∧
      y.rest = cs.drop n := by
  obtain ⟨offset, rest⟩ := x
  simp only at hrest
  subst hrest
  rw [Cursor.next_blank rfl]
  exact exists_next kind cs rfl hrule hne

/-- A word without some character ends in front of this character. -/
lemma prefix_of_append_cons {α : Type} {w front back : List α} {x : α} (hx : x ∉ w)
    (h : w <+: front ++ x :: back) : w <+: front := by
  rcases Nat.lt_or_ge front.length w.length with hlt | hle
  · have hthrough : front ++ [x] <+: front ++ x :: back := ⟨back, by simp⟩
    have hword : front ++ [x] <+: w :=
      List.prefix_of_prefix_length_le hthrough h (by simpa using Nat.succ_le_of_lt hlt)
    exact absurd (hword.subset (by simp)) hx
  · exact List.prefix_of_prefix_length_le h (List.prefix_append front _) hle

/-- A word without some character is found in front of this character or behind it. -/
lemma infix_of_append_cons {α : Type} {w front back : List α} {x : α} (hx : x ∉ w)
    (h : w <:+: front ++ x :: back) : w <:+: front ∨ w <:+: back := by
  induction front with
  | nil =>
    rcases List.infix_cons_iff.1 h with h | h
    · have hword : w <+: [] ++ x :: back := h
      exact Or.inl (prefix_of_append_cons hx hword).isInfix
    · exact Or.inr h
  | cons c front ih =>
    rcases List.infix_cons_iff.1 h with h | h
    · have hword : w <+: (c :: front) ++ x :: back := h
      exact Or.inl (prefix_of_append_cons hx hword).isInfix
    · exact (ih h).imp_left fun h => h.trans (List.suffix_cons c front).isInfix

/-- What stands behind the first line. -/
def linesBehind : List String → List Char
  | [] => []
  | texts => '\n' :: ("\n".intercalate texts).toList

lemma toList_lines_cons (text : String) (texts : List String) :
    ("\n".intercalate (text :: texts)).toList = text.toList ++ linesBehind texts := by
  cases texts with
  | nil => simp [linesBehind]
  | cons next texts =>
    rw [String.intercalate_cons_cons, String.toList_append, String.toList_append]
    simp [linesBehind]

lemma endsLine_linesBehind (texts : List String) : EndsLine (linesBehind texts) := by
  cases texts with
  | nil => exact Or.inl rfl
  | cons next texts => exact Or.inr ⟨_, rfl⟩

/-- Texts on lines of their own are scanned as the tokens that they begin with. -/
def ScansBack (texts : List String) : Prop :=
  ∀ offset, ((⟨offset, ("\n".intercalate texts).toList⟩ : Cursor).scan.1.map Token.lexeme =
      texts.map lexemeOf) ∧
    ∃ last, (⟨offset, ("\n".intercalate texts).toList⟩ : Cursor).scan.2 = .ok last

lemma scansBack_nil : ScansBack [] := by
  intro offset
  have hnext : (⟨offset, []⟩ : Cursor).next = (.ok (.endOfFile offset), ⟨offset, []⟩) := by
    rw [Cursor.next]
  rw [String.intercalate_nil, String.toList_empty, Cursor.scan_of_end hnext rfl]
  exact ⟨rfl, _, rfl⟩

/-- One line more in front of the others. -/
lemma ScansBack.cons {text : String} {texts : List String} (h : ScansBack texts)
    (hfirst : Rule.first? (text.toList ++ linesBehind texts) =
      some (some (kindOf text), text.toList.length)) : ScansBack (text :: texts) := by
  intro offset
  have hbehind : ∀ offset, ((⟨offset, linesBehind texts⟩ : Cursor).scan.1.map Token.lexeme =
      texts.map lexemeOf) ∧ ∃ last, (⟨offset, linesBehind texts⟩ : Cursor).scan.2 = .ok last := by
    intro offset
    cases texts with
    | nil => simpa [linesBehind] using h offset
    | cons next texts =>
      rw [linesBehind, Cursor.scan_congr (Cursor.next_blank rfl offset _)]
      · exact h _
      · exact List.cons_ne_nil _ _
  have hne : text.toList ++ linesBehind texts ≠ [] := by
    intro hnil
    have hpos := Rule.pos_of_first? hfirst
    rw [(List.append_eq_nil_iff.1 hnil).1] at hpos
    exact Nat.lt_irrefl 0 hpos
  have hskip :=
    hbehind ((⟨offset, text.toList ++ linesBehind texts⟩ : Cursor).skip text.toList.length).offset
  rw [toList_lines_cons, Cursor.scan_of_first? hne hfirst]
  unfold Cursor.skip Cursor.token at *
  simp only [List.drop_left, List.take_left] at *
  refine ⟨?_, hskip.2⟩
  rw [List.map_cons, hskip.1, List.map_cons]
  simp [Token.lexeme, lexemeOf]

/-- Texts on lines of their own are read back one by one. -/
theorem scan_lines (texts : List String) (h : ∀ text ∈ texts, OnLine text) (offset : Nat) :
    ((⟨offset, ("\n".intercalate texts).toList⟩ : Cursor).scan.1.map Token.lexeme =
      texts.map lexemeOf) ∧
    ∃ last, (⟨offset, ("\n".intercalate texts).toList⟩ : Cursor).scan.2 = .ok last := by
  have hback : ScansBack texts := by
    induction texts with
    | nil => exact scansBack_nil
    | cons text texts ih =>
      refine ScansBack.cons (ih fun t ht => h t (List.mem_cons_of_mem text ht)) ?_
      exact h text List.mem_cons_self _ (endsLine_linesBehind texts)
  exact hback offset

/-- The shape of a name or of a word of the language. -/
def IsWord (cs : List Char) : Prop :=
  cs.head?.any isNameStart = true ∧ cs.all isNameChar = true

instance (cs : List Char) : Decidable (IsWord cs) :=
  inferInstanceAs (Decidable (_ ∧ _))

lemma IsWord.exists_cons {cs : List Char} (h : IsWord cs) :
    ∃ c tail, cs = c :: tail ∧ isNameStart c = true := by
  obtain ⟨hhead, -⟩ := h
  cases cs with
  | nil => cases hhead
  | cons c tail => exact ⟨c, tail, rfl, hhead⟩

lemma isDigit_of_isNameStart {c : Char} (h : isNameStart c = true) : c.isDigit = false := by
  have halpha : c.isAlpha = (decide (65 ≤ c.val.toNat ∧ c.val.toNat ≤ 90) ||
      decide (97 ≤ c.val.toNat) && decide (c.val.toNat ≤ 122)) := rfl
  have hdigit : c.isDigit = (decide (48 ≤ c.val.toNat) && decide (c.val.toNat ≤ 57)) := rfl
  simp only [isNameStart, halpha, Bool.or_eq_true, Bool.and_eq_true, decide_eq_true_eq,
    beq_iff_eq] at h
  rcases h with (h | rfl) | rfl
  · rw [hdigit, ← Bool.decide_and, decide_eq_false_iff_not]
    omega
  · decide
  · decide

lemma isBlank_of_isNameStart {c : Char} (h : isNameStart c = true) : isBlank c = false := by
  rw [← Bool.not_eq_true]
  intro hb
  simp only [isBlank, Bool.or_eq_true, beq_iff_eq] at hb
  rcases hb with ((((rfl | rfl) | rfl) | rfl) | rfl) | rfl <;> cases h

/-- The front of a text that is no blank, comment, number, quoted text or regular expression. -/
def IsPlain (cs : List Char) : Prop :=
  cs.head?.any (fun c => !isBlank c && !c.isDigit && c != '/' && c != '\x27' && c != '\x22') = true

instance (cs : List Char) : Decidable (IsPlain cs) :=
  inferInstanceAs (Decidable (_ = _))

lemma IsPlain.exists_cons {cs : List Char} (h : IsPlain cs) :
    ∃ c tail, cs = c :: tail ∧ isBlank c = false ∧ c.isDigit = false ∧ c ≠ '/' ∧ c ≠ '\x27' ∧
      c ≠ '\x22' := by
  cases cs with
  | nil => cases h
  | cons c tail =>
    refine ⟨c, tail, rfl, ?_⟩
    simpa [IsPlain, and_assoc] using h

lemma IsWord.isPlain {cs : List Char} (h : IsWord cs) : IsPlain cs := by
  obtain ⟨c, tail, rfl, hc⟩ := h.exists_cons
  have hne : ∀ {x : Char}, isNameStart x = false → c ≠ x := by
    rintro x hx rfl
    rw [hc] at hx
    cases hx
  simp [IsPlain, isBlank_of_isNameStart hc, isDigit_of_isNameStart hc, hne (x := '/') rfl,
    hne (x := '\x27') rfl, hne (x := '\x22') rfl]

section Words

variable {t rest : List Char}

lemma endsWith_blanks (ht : IsPlain t) : ∀ rule ∈ Rule.blanks, rule.pattern.EndsWith t := by
  obtain ⟨c, tail, rfl, hblank, -, hslash, -, -⟩ := ht.exists_cons
  intro rule hrule rest hrest
  simp only [Rule.blanks, Rule.skip, List.mem_cons, List.not_mem_nil, or_false] at hrule
  rcases hrule with rfl | rfl | rfl
  · simp [Pattern.run, runLength, hblank]
  · simp [Pattern.lineComment, hslash]
  · simp [Pattern.blockComment, hslash]

lemma endsWith_functionStar_of_other (ht : "function".toList.isPrefixOf t = false) :
    Pattern.functionStar.EndsWith t := by
  intro rest hrest
  have hword : "function".toList.isPrefixOf (t ++ rest) = "function".toList.isPrefixOf t :=
    isPrefixOf_append (by decide) hrest
  unfold Pattern.functionStar
  simp only [hword, ht]
  rfl

lemma endsWith_functionStar (ht : IsWord t) (hne : t ≠ "function".toList) :
    Pattern.functionStar.EndsWith t := by
  by_cases hfront : "function".toList.isPrefixOf t = true
  · intro rest hrest
    have hall := List.all_eq_true.1 ht.2
    obtain ⟨more, rfl⟩ := List.isPrefixOf_iff_prefix.1 hfront
    cases more with
    | nil => simp at hne
    | cons x more =>
      have hx : isNameChar x = true := hall x (by simp)
      have hblank : isBlank x = false := by
        rw [← Bool.not_eq_true]
        intro hb
        simp only [isBlank, Bool.or_eq_true, beq_iff_eq] at hb
        rcases hb with ((((rfl | rfl) | rfl) | rfl) | rfl) | rfl <;> cases hx
      have hstar : x ≠ '*' := by
        rintro rfl
        cases hx
      have hnone : ∀ tail, Pattern.functionStar.length? ("function".toList ++ x :: tail) = none := by
        intro tail
        have hprefix : "function".toList.isPrefixOf ("function".toList ++ x :: tail) = true :=
          List.isPrefixOf_iff_prefix.2 ⟨_, rfl⟩
        have hdrop : ("function".toList ++ x :: tail).drop 8 = x :: tail := rfl
        have hrun : runLength isBlank (x :: tail) = 0 := by simp [runLength, hblank]
        simp only [Pattern.functionStar, hprefix, if_true, hdrop, hrun, Nat.add_zero,
          List.head?_cons, Option.some.injEq, hstar, if_false]
      rw [List.append_assoc, List.cons_append, hnone, hnone]
  · exact endsWith_functionStar_of_other (Bool.eq_false_iff.2 hfront)

lemma first?_append_of_isPlain (ht : IsPlain t) (hstar : Pattern.functionStar.EndsWith t)
    (hrest : EndsLine rest) : Rule.first? (t ++ rest) = Rule.first? t :=
  first?_append hrest (fun rule hrule => endsWith_blanks ht rule hrule rest hrest)
    (hstar rest hrest)

/-- A text of which its front and a reading of it alone are known. -/
lemma onLine_of_isPlain {text : String} (ht : IsPlain text.toList)
    (hne : "function".toList.isPrefixOf text.toList = false)
    (hrule : Rule.first? text.toList = some (some (kindOf text), text.toList.length)) :
    OnLine text := by
  intro rest hrest
  rw [first?_append_of_isPlain ht (endsWith_functionStar_of_other hne) hrest, hrule]

end Words

lemma first?_of_isToken {kind : Kind} {text : String} (h : IsToken kind text) :
    ∃ n, Rule.first? text.toList = some (some kind, n) ∧ text.toList.take n = text.toList := by
  obtain ⟨hlexemes, last, hlast⟩ := h
  unfold scanSource at hlexemes hlast
  obtain ⟨gap, start, hsplit, -, -, hmeets⟩ := (Cursor.ofSource text).next_meets
  generalize hnext : (Cursor.ofSource text).next = outcome at hmeets
  cases hmeets with
  | done hrest =>
    rw [Cursor.scan_of_end hnext rfl] at hlexemes
    cases hlexemes
  | fault hrest hrule =>
    rw [Cursor.scan_of_error hnext] at hlast
    cases hlast
  | @lexeme found n hrule hrest =>
    rw [Cursor.scan_of_token hnext (Rule.kind_ne_endOfFile_of_first? hrule)] at hlexemes
    simp only [List.map_cons, Token.lexeme, Cursor.token, List.cons.injEq, Prod.mk.injEq] at hlexemes
    obtain ⟨⟨rfl, htext⟩, -⟩ := hlexemes
    have hlist : text.toList = start.rest.take n := by rw [← htext, String.toList_ofList]
    have hsource : text.toList = gap ++ start.rest := hsplit
    -- the lexeme is the whole text, so there is no gap in front of it
    have hlength := congrArg List.length (hsource.symm.trans hlist)
    rw [List.length_append, List.length_take] at hlength
    have hgap : gap = [] := List.length_eq_zero_iff.1 (by omega)
    rw [hgap, List.nil_append] at hsource
    rw [← hsource] at hrule hlist
    exact ⟨n, hrule, hlist.symm⟩

lemma take_of_wholeWord {words : List String} {h : ∀ t ∈ words, t ≠ ""} {cs : List Char} {n : Nat}
    (hlength : (Pattern.wholeWord words h).length? cs = some n) :
    ∃ word ∈ words, cs.take n = word.toList ∧ n ≤ cs.length := by
  unfold Pattern.wholeWord firstWholeWord? at hlength
  obtain ⟨w, hw, hfound⟩ := List.exists_of_findSome?_eq_some hlength
  obtain ⟨word, hword, rfl⟩ := List.mem_map.1 hw
  split at hfound
  next hfront =>
    cases hfound
    rw [Bool.and_eq_true] at hfront
    have hprefix := List.isPrefixOf_iff_prefix.1 hfront.1
    exact ⟨word, hword, (List.prefix_iff_eq_take.1 hprefix).symm, hprefix.length_le⟩
  next => cases hfound

lemma isWord_of_words : ∀ rule ∈ Rule.words, rule.kind? ≠ some .kwFunctionStar →
    ∀ cs n, rule.pattern.length? cs = some n → IsWord (cs.take n) ∧ n ≤ cs.length := by
  have hword : ∀ {words : List String} {h : ∀ t ∈ words, t ≠ ""},
      (∀ w ∈ words, IsWord w.toList) → ∀ cs n,
        (Pattern.wholeWord words h).length? cs = some n → IsWord (cs.take n) ∧ n ≤ cs.length := by
    intro words h hwords cs n hlength
    obtain ⟨word, hmem, htake, hle⟩ := take_of_wholeWord hlength
    rw [htake]
    exact ⟨hwords word hmem, hle⟩
  simp only [Rule.words, Rule.make, List.forall_mem_cons]
  and_intros
  all_goals first
    | exact fun _ => hword (by decide)
    | exact fun hne => absurd rfl hne
    | exact List.forall_mem_nil _

lemma isWord_of_identifier {cs : List Char} {n : Nat}
    (h : Pattern.identifier.length? cs = some n) : IsWord (cs.take n) ∧ n ≤ cs.length := by
  simp only [Pattern.identifier] at h
  split at h
  next => cases h
  next c cs =>
    by_cases hc : isNameStart c = true
    · rw [if_pos hc] at h
      cases h
      have hstart : isNameChar c = true := by
        simp only [isNameStart, Bool.or_eq_true] at hc
        simp only [isNameChar, isWordChar, Char.isAlphanum, Bool.or_eq_true]
        tauto
      have hle : runLength isNameChar cs ≤ cs.length := (List.takeWhile_prefix _).length_le
      rw [List.take_succ_cons, take_runLength]
      refine ⟨⟨hc, List.all_eq_true.2 fun x hx => ?_⟩, Nat.succ_le_succ hle⟩
      rcases List.mem_cons.1 hx with rfl | hx
      · exact hstart
      · exact List.mem_takeWhile_imp hx
    · rw [if_neg hc] at h
      cases h

/-- Names and reserved words have the shape of a word. -/
lemma isWord_of_isToken {kind : Kind} {text : String} (h : IsToken kind text)
    (hkind : kind = .identifier ∨ kind.isKeyword = true) :
    IsWord text.toList ∧ Rule.first? text.toList = some (some kind, text.toList.length) := by
  obtain ⟨n, hrule, htake⟩ := first?_of_isToken h
  obtain ⟨rule, hmem, hrulekind, hlength⟩ := Rule.exists_of_first? hrule
  have hothers : ∀ rule ∈ Rule.blanks ++ Rule.literals ++ Rule.punctuation ++ Rule.operators,
      rule.kind?.all (fun k => k ≠ .identifier ∧ k.isKeyword = false) = true := by
    have hall : ((Rule.blanks ++ Rule.literals ++ Rule.punctuation ++ Rule.operators).map
        Rule.kind?).all (fun k => k.all (fun k => k ≠ .identifier ∧ k.isKeyword = false)) = true := by
      decide
    intro rule hmem
    exact List.all_eq_true.1 hall _ (List.mem_map_of_mem hmem)
  -- only a rule for words or the rule for names can have read the text
  have hword : IsWord (text.toList.take n) ∧ n ≤ text.toList.length := by
    unfold Rule.table at hmem
    rcases List.mem_append.1 hmem with hmem | hlast
    · rcases List.mem_append.1 hmem with hother | hword
      · have hnone := hothers rule hother
        rw [hrulekind] at hnone
        simp only [Option.all_some, decide_eq_true_eq] at hnone
        rcases hkind with heq | hkeyword
        · exact absurd heq hnone.1
        · rw [hnone.2] at hkeyword
          cases hkeyword
      · refine isWord_of_words rule hword ?_ _ _ hlength
        rw [hrulekind]
        rintro ⟨rfl⟩
        rcases hkind with heq | hkeyword
        · cases heq
        · cases hkeyword
    · rw [List.mem_singleton.1 hlast] at hlength
      exact isWord_of_identifier hlength
  have hlen := congrArg List.length htake
  rw [List.length_take, Nat.min_eq_left hword.2] at hlen
  rw [htake] at hword
  rw [← hlen]
  exact ⟨hword.1, hrule⟩

/-- A name or a reserved word other than `function` is read back from a line. -/
theorem onLine_of_isToken {kind : Kind} {text : String} (h : IsToken kind text)
    (hkind : kind = .identifier ∨ kind.isKeyword = true) (hne : text ≠ "function") :
    kindOf text = kind ∧ OnLine text := by
  obtain ⟨hword, hrule⟩ := isWord_of_isToken h hkind
  have hof : kindOf text = kind := by
    unfold kindOf
    rw [hrule]
  refine ⟨hof, fun rest hrest => ?_⟩
  have hlist : text.toList ≠ "function".toList := fun heq => hne (String.toList_injective heq)
  rw [first?_append_of_isPlain hword.isPlain (endsWith_functionStar hword hlist) hrest, hrule, hof]

theorem onLine_of_name {name : String} (h : IsToken .identifier name) :
    kindOf name = .identifier ∧ OnLine name := by
  refine onLine_of_isToken h (Or.inl rfl) ?_
  rintro rfl
  have hkeyword : Rule.first? "function".toList = some (some .kwFunction, 8) := by decide +kernel
  have hname := (isWord_of_isToken h (Or.inl rfl)).2
  rw [hkeyword] at hname
  cases hname

/-- Texts that are read back when each has a line of its own. Among them may be the word `function`
where a name follows, so that no star does. -/
inductive OnLines : List String → Prop where
  | nil : OnLines []
  | cons {text : String} {texts : List String} (h : OnLine text) (hrest : OnLines texts) :
      OnLines (text :: texts)
  | function {name : String} {texts : List String} (hname : IsToken .identifier name)
      (hrest : OnLines (name :: texts)) : OnLines ("function" :: name :: texts)

namespace OnLines

lemma append {texts others : List String} (h : OnLines texts) (hothers : OnLines others) :
    OnLines (texts ++ others) := by
  induction h with
  | nil => exact hothers
  | cons htext _ ih => exact .cons htext ih
  | function hname _ ih => exact .function hname ih

end OnLines

/-- In front of a name on the next line the word `function` is a token by itself. -/
lemma first?_function {name : String} (hname : IsToken .identifier name) (texts : List String) :
    Rule.first? ("function".toList ++ linesBehind (name :: texts)) = some (some .kwFunction, 8) := by
  obtain ⟨c, tail, hc, hstart⟩ := (isWord_of_isToken hname (Or.inl rfl)).1.exists_cons
  have hstar : c ≠ '*' := by
    rintro rfl
    cases hstart
  have hlines : linesBehind (name :: texts) = '\n' :: c :: (tail ++ linesBehind texts) := by
    rw [linesBehind, toList_lines_cons, hc, List.cons_append]
    exact List.cons_ne_nil _ _
  have hplain : IsPlain "function".toList := by decide
  have hends := endsLine_linesBehind (name :: texts)
  rw [first?_append hends (fun rule hrule => endsWith_blanks hplain rule hrule _ hends)]
  · decide +kernel
  · have hfront : "function".toList.isPrefixOf
        ("function".toList ++ '\n' :: c :: (tail ++ linesBehind texts)) = true :=
      List.isPrefixOf_iff_prefix.2 ⟨_, rfl⟩
    have hdrop : ("function".toList ++ '\n' :: c :: (tail ++ linesBehind texts)).drop 8 =
        '\n' :: c :: (tail ++ linesBehind texts) := rfl
    have hrun : runLength isBlank ('\n' :: c :: (tail ++ linesBehind texts)) = 1 := by
      simp [runLength, isBlank_of_isNameStart hstart, show isBlank '\n' = true from rfl]
    rw [hlines]
    simp only [Pattern.functionStar, hfront, if_true, hdrop, hrun]
    simp [hstar]

theorem OnLines.scansBack {texts : List String} (h : OnLines texts) : ScansBack texts := by
  induction h with
  | nil => exact scansBack_nil
  | cons htext _ ih => exact ih.cons (htext _ (endsLine_linesBehind _))
  | function hname _ ih =>
    have hkind : kindOf "function" = .kwFunction := by decide +kernel
    refine ih.cons ?_
    rw [hkind]
    exact first?_function hname _

end ScriptTree
