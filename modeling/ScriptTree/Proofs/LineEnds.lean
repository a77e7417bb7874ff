import ScriptTree.Proofs.Scan

/-!
# Ends of lines

A line feed ends every lexeme in front of it, except that `function` may go on to a star, and that
gaps may go on. So what the rules read off the front of a text does not depend on what follows the
text on other lines.

Main statements: `first?_append`, and `Rule.le_length_of_first?`, no rule reads past the text.
-/

namespace ScriptTree

/-- Nothing is left, or the line ends. -/
def EndsLine (rest : List Char) : Prop :=
  rest = [] ∨ ∃ tail, rest = '\n' :: tail

section Lines

variable {t rest : List Char}

lemma EndsLine.head? {rest : List Char} (h : EndsLine rest) :
    rest.head? = none ∨ rest.head? = some '\n' := by
  rcases h with rfl | ⟨tail, rfl⟩
  · exact Or.inl rfl
  · exact Or.inr rfl

/-- A word without a line feed stands in front of a text that ends its line only if it stands in
front of that text. -/
lemma isPrefixOf_append {w t rest : List Char} (hw : '\n' ∉ w) (hrest : EndsLine rest) :
    w.isPrefixOf (t ++ rest) = w.isPrefixOf t := by
  induction w generalizing t with
  | nil => simp
  | cons x w ih =>
    have hx : x ≠ '\n' := fun h => hw (h ▸ List.mem_cons_self)
    have htail : '\n' ∉ w := fun h => hw (List.mem_cons_of_mem x h)
    cases t with
    | nil =>
      rcases hrest with rfl | ⟨tail, rfl⟩
      · rfl
      · simp [List.isPrefixOf, hx]
    | cons y t => simp [List.isPrefixOf, ih htail]

lemma runLength_append {p : Char → Bool} {t rest : List Char} (hp : p '\n' = false)
    (hrest : EndsLine rest) : runLength p (t ++ rest) = runLength p t := by
  have hstop : rest.takeWhile p = [] := by
    rcases hrest with rfl | ⟨tail, rfl⟩
    · rfl
    · simp [hp]
  unfold runLength
  rw [List.takeWhile_append]
  split
  next hall => rw [hstop, List.append_nil, hall]
  next => rfl

lemma runLength_le (p : Char → Bool) (cs : List Char) : runLength p cs ≤ cs.length :=
  (List.takeWhile_prefix p).length_le

lemma head?_append_iff {c : Char} (hc : c ≠ '\n') (hrest : EndsLine rest) :
    (t ++ rest).head? = some c ↔ t.head? = some c := by
  cases t with
  | nil => rcases hrest.head? with hhead | hhead <;> simp [hhead, hc.symm]
  | cons d t => rfl

lemma takeWhile_line_append (hrest : EndsLine rest) :
    (t ++ rest).takeWhile (· != '\n') = t.takeWhile (· != '\n') := by
  have hlength := runLength_append (p := (· != '\n')) (t := t) rfl hrest
  rw [← take_runLength, ← take_runLength, hlength, List.take_append_of_le_length (runLength_le _ _)]

/-- A pattern reads the same at the end of a line as of a text. -/
def Pattern.EndsWith (p : Pattern) (t : List Char) : Prop :=
  ∀ rest, EndsLine rest → p.length? (t ++ rest) = p.length? t

lemma findSome?_congr {α β : Type} {f g : α → Option β} {l : List α} (h : ∀ a ∈ l, f a = g a) :
    l.findSome? f = l.findSome? g := by
  induction l with
  | nil => rfl
  | cons a l ih =>
    rw [List.findSome?_cons, List.findSome?_cons, h a List.mem_cons_self,
      ih fun b hb => h b (List.mem_cons_of_mem a hb)]

lemma endsWith_oneOf {texts : List String} {h : ∀ t ∈ texts, t ≠ ""}
    (htexts : ∀ w ∈ texts, '\n' ∉ w.toList) : (Pattern.oneOf texts h).EndsWith t := by
  intro rest hrest
  unfold Pattern.oneOf firstWord?
  apply findSome?_congr
  intro w hw
  obtain ⟨text, htext, rfl⟩ := List.mem_map.1 hw
  rw [isPrefixOf_append (htexts text htext) hrest]

lemma endsWith_wholeWord {words : List String} {h : ∀ t ∈ words, t ≠ ""}
    (hwords : ∀ w ∈ words, '\n' ∉ w.toList) : (Pattern.wholeWord words h).EndsWith t := by
  intro rest hrest
  unfold Pattern.wholeWord firstWholeWord?
  apply findSome?_congr
  intro w hw
  obtain ⟨word, hword, rfl⟩ := List.mem_map.1 hw
  rw [isPrefixOf_append (hwords word hword) hrest]
  by_cases hfront : word.toList.isPrefixOf t = true
  · have hlength : word.toList.length ≤ t.length :=
      (List.isPrefixOf_iff_prefix.1 hfront).length_le
    have hnext : ((t ++ rest).drop word.toList.length).head?.any isWordChar =
        (t.drop word.toList.length).head?.any isWordChar := by
      rw [List.drop_append_of_le_length hlength]
      cases t.drop word.toList.length with
      | nil => rcases hrest.head? with hhead | hhead <;> simp [hhead, isWordChar]
      | cons x xs => rfl
    rw [hnext]
  · simp [hfront]

lemma endsWith_lineComment : Pattern.lineComment.EndsWith t := by
  intro rest hrest
  rcases t with _ | ⟨c, _ | ⟨d, cs⟩⟩
  · rcases hrest with rfl | ⟨tail, rfl⟩ <;> rfl
  · rcases hrest with rfl | ⟨tail, rfl⟩
    · rfl
    · simp [Pattern.lineComment]
  · simp only [Pattern.lineComment, List.cons_append]
    split
    next heq =>
      cases heq
      simp only [runLength_append (p := (· != '\n')) rfl hrest]
    next hother =>
      split
      next heq =>
        cases heq
        exact absurd rfl (hother _)
      next => rfl

lemma fractionLength_append (hrest : EndsLine rest) :
    fractionLength (t ++ rest) = fractionLength t := by
  cases t with
  | nil => rcases hrest with rfl | ⟨tail, rfl⟩ <;> rfl
  | cons c cs =>
    by_cases hc : c = '.'
    · subst hc
      simp only [List.cons_append, fractionLength, runLength_append (p := Char.isDigit) rfl hrest]
    · simp [fractionLength, hc]

lemma signedDigitsLength_append (hrest : EndsLine rest) :
    signedDigitsLength (t ++ rest) = signedDigitsLength t := by
  cases t with
  | nil => rcases hrest with rfl | ⟨tail, rfl⟩ <;> rfl
  | cons c cs =>
    have hrun := runLength_append (p := Char.isDigit) (t := c :: cs) rfl hrest
    rw [List.cons_append] at hrun
    simp only [List.cons_append, signedDigitsLength, hrun,
      runLength_append (p := Char.isDigit) rfl hrest]

lemma exponentLength_append (hrest : EndsLine rest) :
    exponentLength (t ++ rest) = exponentLength t := by
  cases t with
  | nil => rcases hrest with rfl | ⟨tail, rfl⟩ <;> rfl
  | cons c cs => simp only [List.cons_append, exponentLength, signedDigitsLength_append hrest]

lemma fractionLength_le (cs : List Char) : fractionLength cs ≤ cs.length := by
  unfold fractionLength
  split
  next cs =>
    have hle := runLength_le Char.isDigit cs
    split
    · exact Nat.zero_le _
    · simp only [List.length_cons]
      omega
  next => exact Nat.zero_le _

lemma signedDigitsLength_le (cs : List Char) : signedDigitsLength cs ≤ cs.length := by
  unfold signedDigitsLength
  split
  next => exact Nat.zero_le _
  next c cs =>
    have hle := runLength_le Char.isDigit cs
    split
    · split
      · exact Nat.zero_le _
      · simp only [List.length_cons]
        omega
    · exact runLength_le _ _

lemma exponentLength_le (cs : List Char) : exponentLength cs ≤ cs.length := by
  unfold exponentLength
  split
  next => exact Nat.zero_le _
  next c cs =>
    have hle := signedDigitsLength_le cs
    split
    · split
      · exact Nat.zero_le _
      · simp only [List.length_cons]
        omega
    · exact Nat.zero_le _

lemma endsWith_bigInt : Pattern.bigInt.EndsWith t := by
  intro rest hrest
  simp only [Pattern.bigInt, runLength_append (p := Char.isDigit) rfl hrest]
  have hle := runLength_le Char.isDigit t
  rcases hrun : runLength Char.isDigit t with _ | n
  · rfl
  · rw [hrun] at hle
    have hn : 'n' ≠ '\n' := by decide
    simp only [List.drop_append_of_le_length hle, head?_append_iff hn hrest]

lemma endsWith_number : Pattern.number.EndsWith t := by
  intro rest hrest
  simp only [Pattern.number, runLength_append (p := Char.isDigit) rfl hrest]
  have hle := runLength_le Char.isDigit t
  rcases hrun : runLength Char.isDigit t with _ | n
  · rfl
  · rw [hrun] at hle
    have hfraction := fractionLength_le (t.drop (n + 1))
    rw [List.length_drop] at hfraction
    have hle' : n + 1 + fractionLength (t.drop (n + 1)) ≤ t.length := by omega
    simp only [List.drop_append_of_le_length hle, fractionLength_append hrest,
      List.drop_append_of_le_length hle', exponentLength_append hrest]

lemma endsWith_quoted (quote : Char) (hquote : quote ≠ '\n') :
    (Pattern.quoted quote).EndsWith t := by
  intro rest hrest
  cases t with
  | nil =>
    rcases hrest with rfl | ⟨tail, rfl⟩
    · rfl
    · simp [Pattern.quoted, hquote.symm]
  | cons c cs =>
    simp only [Pattern.quoted, List.cons_append, quotedTail?, takeWhile_line_append hrest]

lemma regexBody?_append (hrest : EndsLine rest) : regexBody? (t ++ rest) = regexBody? t := by
  fun_induction regexBody? t with
  | case1 => rcases hrest with rfl | ⟨tail, rfl⟩ <;> rfl
  | case2 cs => rfl
  | case3 cs => rfl
  | case4 => rcases hrest with rfl | ⟨tail, rfl⟩ <;> rfl
  | case5 cs => rfl
  | case6 c cs hc ih =>
    rw [List.cons_append, List.cons_append, regexBody?.eq_6 _ _ hc, ih]
  | case7 c cs hslash hline hend _ hescape ih =>
    have hback : c ≠ '\\' := by
      rintro rfl
      cases cs with
      | nil => exact hend rfl rfl
      | cons d cs => exact hescape d cs rfl rfl
    rw [List.cons_append, regexBody?.eq_7 _ _ hslash hline, ih]
    · exact fun h => absurd h hback
    · exact fun _ h => absurd h hback
    · exact fun _ _ h => absurd h hback

lemma regexBody?_le {cs : List Char} {n : Nat} (h : regexBody? cs = some n) :
    n + 1 ≤ cs.length := by
  fun_induction regexBody? cs generalizing n with
  | case1 => cases h
  | case2 cs =>
    cases h
    simp
  | case3 => cases h
  | case4 => cases h
  | case5 => cases h
  | case6 c cs hc ih =>
    obtain ⟨m, hm, rfl⟩ := Option.map_eq_some_iff.1 h
    simp only [List.length_cons]
    have := ih hm
    omega
  | case7 c cs _ _ _ _ _ ih =>
    obtain ⟨m, hm, rfl⟩ := Option.map_eq_some_iff.1 h
    simp only [List.length_cons]
    have := ih hm
    omega

lemma endsWith_regex : Pattern.regex.EndsWith t := by
  intro rest hrest
  cases t with
  | nil => rcases hrest with rfl | ⟨tail, rfl⟩ <;> rfl
  | cons c cs =>
    by_cases hc : c = '/'
    · subst hc
      simp only [Pattern.regex, List.cons_append, regexBody?_append hrest]
      rcases hbody : regexBody? cs with _ | _ | n
      · rfl
      · rfl
      · simp only [List.drop_append_of_le_length (regexBody?_le hbody),
          runLength_append (p := Char.isLower) rfl hrest]
    · simp [Pattern.regex, hc]

lemma endsWith_literals : ∀ rule ∈ Rule.literals, rule.pattern.EndsWith t := by
  intro rule hrule
  simp only [Rule.literals, Rule.make, List.mem_cons, List.not_mem_nil, or_false] at hrule
  rcases hrule with rfl | rfl | rfl | rfl | rfl
  · exact endsWith_bigInt
  · exact endsWith_number
  · exact endsWith_quoted '\x27' (by decide)
  · exact endsWith_quoted '\x22' (by decide)
  · exact endsWith_regex

lemma endsWith_identifier : Pattern.identifier.EndsWith t := by
  intro rest hrest
  cases t with
  | nil =>
    rcases hrest with rfl | ⟨tail, rfl⟩
    · rfl
    · simp [Pattern.identifier, isNameStart]
  | cons c tail =>
    simp only [Pattern.identifier, List.cons_append,
      runLength_append (p := isNameChar) rfl hrest]

lemma endsWith_punctuation : ∀ rule ∈ Rule.punctuation, rule.pattern.EndsWith t := by
  simp only [Rule.punctuation, Rule.make, List.forall_mem_cons]
  and_intros
  all_goals first | exact endsWith_oneOf (by decide) | exact List.forall_mem_nil _

lemma endsWith_operators : ∀ rule ∈ Rule.operators, rule.pattern.EndsWith t := by
  simp only [Rule.operators, Rule.make, List.forall_mem_cons]
  and_intros
  all_goals first | exact endsWith_oneOf (by decide) | exact List.forall_mem_nil _

/-- The words of the language end with the line, if `function` is not followed by a star there. -/
lemma words_append (hrest : EndsLine rest)
    (hstar : Pattern.functionStar.length? (t ++ rest) = Pattern.functionStar.length? t) :
    ∀ rule ∈ Rule.words, rule.pattern.length? (t ++ rest) = rule.pattern.length? t := by
  simp only [Rule.words, Rule.make, List.forall_mem_cons]
  and_intros
  all_goals first
    | exact hstar
    | exact endsWith_wholeWord (by decide) rest hrest
    | exact List.forall_mem_nil _

/-- What stands behind a text on its line does not matter, unless a gap or `function` goes on
there. -/
lemma first?_append (hrest : EndsLine rest)
    (hblanks : ∀ rule ∈ Rule.blanks, rule.pattern.length? (t ++ rest) = rule.pattern.length? t)
    (hstar : Pattern.functionStar.length? (t ++ rest) = Pattern.functionStar.length? t) :
    Rule.first? (t ++ rest) = Rule.first? t := by
  apply findSome?_congr
  intro rule hrule
  have hsame : rule.pattern.length? (t ++ rest) = rule.pattern.length? t := by
    simp only [Rule.table, List.mem_append, List.mem_singleton] at hrule
    rcases hrule with ((((hrule | hrule) | hrule) | hrule) | hrule) | rfl
    · exact hblanks rule hrule
    · exact endsWith_literals rule hrule rest hrest
    · exact endsWith_punctuation rule hrule rest hrest
    · exact endsWith_operators rule hrule rest hrest
    · exact words_append hrest hstar rule hrule
    · exact endsWith_identifier rest hrest
  rw [hsame]

end Lines

/-- A pattern reads no more than there is. -/
def Pattern.Within (p : Pattern) : Prop :=
  ∀ cs n, p.length? cs = some n → n ≤ cs.length

lemma lt_length_of_head? {cs : List Char} {n : Nat} {c : Char} (h : (cs.drop n).head? = some c) :
    n < cs.length := by
  rw [List.head?_drop] at h
  exact (List.getElem?_eq_some_iff.1 h).1

lemma within_run (p : Char → Bool) : (Pattern.run p).Within := by
  intro cs n h
  have hle := runLength_le p cs
  simp only [Pattern.run] at h
  split at h
  next => cases h
  next m hm =>
    cases h
    omega

lemma within_oneOf {texts : List String} {h : ∀ t ∈ texts, t ≠ ""} :
    (Pattern.oneOf texts h).Within := by
  intro cs n hn
  obtain ⟨w, -, hw⟩ := List.exists_of_findSome?_eq_some hn
  split at hw
  next hfront =>
    cases hw
    exact (List.isPrefixOf_iff_prefix.1 hfront).length_le
  next => cases hw

lemma within_wholeWord {words : List String} {h : ∀ t ∈ words, t ≠ ""} :
    (Pattern.wholeWord words h).Within := by
  intro cs n hn
  obtain ⟨w, -, hw⟩ := List.exists_of_findSome?_eq_some hn
  split at hw
  next hfront =>
    cases hw
    exact (List.isPrefixOf_iff_prefix.1 (Bool.and_eq_true_iff.1 hfront).1).length_le
  next => cases hw

lemma within_lineComment : Pattern.lineComment.Within := by
  intro cs n h
  simp only [Pattern.lineComment] at h
  split at h
  next cs =>
    cases h
    have hle := runLength_le (· != '\n') cs
    simp only [List.length_cons]
    omega
  next => cases h

lemma within_blockComment : Pattern.blockComment.Within := by
  intro cs n h
  simp only [Pattern.blockComment] at h
  split at h
  next cs =>
    obtain ⟨k, hk, rfl⟩ := Option.map_eq_some_iff.1 h
    obtain ⟨body, -, hcs, rfl⟩ := blockCommentTail?_eq_some hk
    have hlength := congrArg List.length hcs
    simp only [List.length_append, List.length_cons] at hlength ⊢
    omega
  next => cases h

lemma within_bigInt : Pattern.bigInt.Within := by
  intro cs n h
  simp only [Pattern.bigInt] at h
  split at h
  next => cases h
  next =>
    split at h
    next hlast =>
      cases h
      exact lt_length_of_head? hlast
    next => cases h

lemma within_number : Pattern.number.Within := by
  intro cs n h
  simp only [Pattern.number] at h
  have hdigits := runLength_le Char.isDigit cs
  split at h
  next => cases h
  next m hm =>
    cases h
    have hfraction := fractionLength_le (cs.drop (m + 1))
    have hexponent := exponentLength_le (cs.drop (m + 1 + fractionLength (cs.drop (m + 1))))
    rw [List.length_drop] at hfraction hexponent
    omega

lemma within_quoted (quote : Char) : (Pattern.quoted quote).Within := by
  intro cs n h
  simp only [Pattern.quoted] at h
  split at h
  next => cases h
  next c cs =>
    split at h
    next =>
      obtain ⟨k, hk, rfl⟩ := Option.map_eq_some_iff.1 h
      unfold quotedTail? at hk
      have hback := (List.dropWhile_suffix (l := (cs.takeWhile (· != '\n')).reverse)
        (· != quote)).length_le
      have hline := runLength_le (· != '\n') cs
      rw [List.length_reverse] at hback
      unfold runLength at hline
      split at hk
      next => cases hk
      next m hm =>
        cases hk
        simp only [List.length_cons]
        omega
    next => cases h

lemma within_regex : Pattern.regex.Within := by
  intro cs n h
  simp only [Pattern.regex] at h
  split at h
  next cs =>
    split at h
    next m hm =>
      cases h
      have hbody := regexBody?_le hm
      have hflags := runLength_le Char.isLower (cs.drop (m + 2))
      rw [List.length_drop] at hflags
      simp only [List.length_cons]
      omega
    next => cases h
  next => cases h

lemma within_functionStar : Pattern.functionStar.Within := by
  intro cs n h
  simp only [Pattern.functionStar] at h
  split at h
  next =>
    split at h
    next hstar =>
      cases h
      exact lt_length_of_head? hstar
    next => cases h
  next => cases h

lemma within_identifier : Pattern.identifier.Within := by
  intro cs n h
  simp only [Pattern.identifier] at h
  split at h
  next => cases h
  next c cs =>
    split at h
    next =>
      cases h
      exact Nat.succ_le_succ (runLength_le _ _)
    next => cases h

lemma Rule.within_table : ∀ rule ∈ Rule.table, rule.pattern.Within := by
  simp only [Rule.table, Rule.blanks, Rule.literals, Rule.punctuation, Rule.operators, Rule.words,
    Rule.skip, Rule.make, List.cons_append, List.nil_append, List.forall_mem_cons]
  and_intros
  all_goals first
    | exact within_run _
    | exact within_lineComment
    | exact within_blockComment
    | exact within_bigInt
    | exact within_number
    | exact within_quoted _
    | exact within_regex
    | exact within_oneOf
    | exact within_wholeWord
    | exact within_functionStar
    | exact within_identifier
    | exact List.forall_mem_nil _

lemma Rule.le_length_of_first? {cs : List Char} {kind? : Option Kind} {n : Nat}
    (h : Rule.first? cs = some (kind?, n)) : n ≤ cs.length := by
  obtain ⟨rule, hmem, -, hlength⟩ := Rule.exists_of_first? h
  exact Rule.within_table rule hmem cs n hlength

end ScriptTree
