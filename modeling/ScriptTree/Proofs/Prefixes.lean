import ScriptTree.Proofs.Texts

/-!
# Lexemes cut off from what follows them

A rule was chosen for a lexeme with some text behind it. Without that text the same rule is chosen:
no repetition reaches further or stops earlier, and no earlier rule reads anything, because it would
have read something with the text behind it too. The one exception, a word of the language that a
word character follows, does not come up, because a lexeme with the shape of a word ends where no
word character follows.

Main statement: `first?_of_append`, the text of a lexeme is by itself the same lexeme.
-/

namespace ScriptTree

/-- What a pattern reads inside a text does not depend on what is behind the text. -/
def Pattern.Local (p : Pattern) : Prop :=
  ∀ t u n, p.length? (t ++ u) = some n → n ≤ t.length → p.length? t = some n

/-- A pattern that reads something also does with more text behind. -/
def Pattern.Persists (p : Pattern) : Prop :=
  ∀ t u n, p.length? t = some n → p.length? (t ++ u) ≠ none

section Patterns

variable {t u : List Char}

lemma runLength_of_append {p : Char → Bool} (h : runLength p (t ++ u) ≤ t.length) :
    runLength p t = runLength p (t ++ u) := by
  unfold runLength at h ⊢
  rw [List.takeWhile_append] at h ⊢
  split at h
  next hall =>
    rw [List.length_append] at h
    rw [if_pos hall, List.length_append, hall]
    omega
  next hsome => rw [if_neg hsome]

lemma runLength_append_of_lt {p : Char → Bool} (h : runLength p t < t.length) :
    runLength p (t ++ u) = runLength p t := by
  unfold runLength at h ⊢
  rw [List.takeWhile_append, if_neg (Nat.ne_of_lt h)]

lemma runLength_le_append {p : Char → Bool} : runLength p t ≤ runLength p (t ++ u) := by
  rcases Nat.lt_or_ge (runLength p (t ++ u)) t.length with hlt | hge
  · exact Nat.le_of_eq (runLength_of_append (Nat.le_of_lt hlt))
  · exact (runLength_le p t).trans hge

lemma head?_drop_append {n : Nat} (h : n < t.length) :
    ((t ++ u).drop n).head? = (t.drop n).head? := by
  rw [List.head?_drop, List.head?_drop, List.getElem?_append_left h]

lemma local_run (p : Char → Bool) : (Pattern.run p).Local := by
  intro t u n h hn
  simp only [Pattern.run] at h ⊢
  split at h
  next => cases h
  next m hm =>
    cases h
    rw [runLength_of_append (u := u) (by omega), hm]

lemma persists_run (p : Char → Bool) : (Pattern.run p).Persists := by
  intro t u n h
  have hle := runLength_le_append (p := p) (t := t) (u := u)
  simp only [Pattern.run] at h ⊢
  split at h
  next => cases h
  next m hm =>
    rw [hm] at hle
    split
    next hzero => omega
    next => exact Option.some_ne_none _

lemma local_lineComment : Pattern.lineComment.Local := by
  intro t u n h hn
  simp only [Pattern.lineComment] at h
  split at h
  next cs hcs =>
    cases h
    rcases t with _ | ⟨c, _ | ⟨d, t⟩⟩
    · cases hn
    · simp only [List.length_cons, List.length_nil] at hn
      omega
    · cases hcs
      have hle : runLength (· != '\n') (t ++ u) ≤ t.length :=
        Nat.le_of_succ_le_succ (Nat.le_of_succ_le_succ hn)
      have hrun := runLength_of_append hle
      simp only [Pattern.lineComment, hrun]
      rfl
  next => cases h

lemma persists_lineComment : Pattern.lineComment.Persists := by
  intro t u n h
  simp only [Pattern.lineComment] at h
  split at h
  next => exact Option.some_ne_none _
  next => cases h

lemma blockCommentTail?_of_append {n : Nat} (h : blockCommentTail? (t ++ u) = some n)
    (hn : n ≤ t.length) : blockCommentTail? t = some n := by
  fun_induction blockCommentTail? t generalizing n with
  | case1 =>
    obtain ⟨body, -, -, rfl⟩ := blockCommentTail?_eq_some h
    cases hn
  | case2 cs => exact h
  | case3 c cs hfront ih =>
    rw [List.cons_append, blockCommentTail?.eq_3] at h
    · obtain ⟨m, hm, rfl⟩ := Option.map_eq_some_iff.1 h
      rw [ih hm (Nat.le_of_succ_le_succ hn), Option.map_some]
    · -- a star at the end of the text would need a slash behind it
      intro tail hc hcs
      cases cs with
      | nil =>
        rw [List.nil_append] at hcs
        subst hc hcs
        cases h
        exact absurd hn (by decide)
      | cons d cs =>
        cases hcs
        exact hfront cs hc rfl

lemma blockCommentTail?_append_of_some {n : Nat} (h : blockCommentTail? t = some n) :
    blockCommentTail? (t ++ u) = some n := by
  fun_induction blockCommentTail? t generalizing n with
  | case1 => cases h
  | case2 cs => exact h
  | case3 c cs hfront ih =>
    obtain ⟨m, hm, rfl⟩ := Option.map_eq_some_iff.1 h
    rw [List.cons_append, blockCommentTail?.eq_3, ih hm, Option.map_some]
    intro tail hc hcs
    cases cs with
    | nil => cases hm
    | cons d cs =>
      cases hcs
      exact hfront cs hc rfl

lemma local_blockComment : Pattern.blockComment.Local := by
  intro t u n h hn
  simp only [Pattern.blockComment] at h
  split at h
  next cs hcs =>
    obtain ⟨m, hm, rfl⟩ := Option.map_eq_some_iff.1 h
    rcases t with _ | ⟨c, _ | ⟨d, t⟩⟩
    · cases hn
    · simp only [List.length_cons, List.length_nil] at hn
      omega
    · cases hcs
      simp only [List.length_cons] at hn
      simp only [Pattern.blockComment, blockCommentTail?_of_append hm (by omega), Option.map_some]
  next => cases h

lemma persists_blockComment : Pattern.blockComment.Persists := by
  intro t u n h
  simp only [Pattern.blockComment] at h
  split at h
  next cs =>
    obtain ⟨m, hm, rfl⟩ := Option.map_eq_some_iff.1 h
    simp only [Pattern.blockComment, List.cons_append, blockCommentTail?_append_of_some hm,
      Option.map_some]
    exact Option.some_ne_none _
  next => cases h

/-! ### Literals -/

lemma local_bigInt : Pattern.bigInt.Local := by
  intro t u n h hn
  simp only [Pattern.bigInt] at h ⊢
  split at h
  next => cases h
  next m hm =>
    split at h
    next hlast =>
      cases h
      rw [head?_drop_append (by omega)] at hlast
      rw [runLength_of_append (u := u) (by omega), hm]
      simp [hlast]
    next => cases h

lemma persists_bigInt : Pattern.bigInt.Persists := by
  intro t u n h
  simp only [Pattern.bigInt] at h ⊢
  split at h
  next => cases h
  next m hm =>
    split at h
    next hlast =>
      have hlt := lt_length_of_head? hlast
      rw [runLength_append_of_lt (by omega), hm]
      simp [head?_drop_append hlt, hlast]
    next => cases h

lemma fractionLength_of_append (h : fractionLength (t ++ u) ≤ t.length) :
    fractionLength t = fractionLength (t ++ u) := by
  cases t with
  | nil => exact (Nat.le_zero.1 h).symm
  | cons c cs =>
    by_cases hc : c = '.'
    · subst hc
      simp only [List.cons_append, fractionLength, List.length_cons] at h ⊢
      have hrun : runLength Char.isDigit (cs ++ u) ≤ cs.length := by
        split at h <;> omega
      rw [runLength_of_append hrun]
    · simp [fractionLength, hc]

lemma signedDigitsLength_of_append (h : signedDigitsLength (t ++ u) ≤ t.length) :
    signedDigitsLength t = signedDigitsLength (t ++ u) := by
  cases t with
  | nil => exact (Nat.le_zero.1 h).symm
  | cons c cs =>
    simp only [List.cons_append, signedDigitsLength] at h ⊢
    by_cases hc : (c == '+' || c == '-') = true
    · simp only [hc, if_true, List.length_cons] at h ⊢
      have hrun : runLength Char.isDigit (cs ++ u) ≤ cs.length := by
        split at h <;> omega
      rw [runLength_of_append hrun]
    · simp only [hc] at h ⊢
      exact runLength_of_append (t := c :: cs) h

lemma exponentLength_of_append (h : exponentLength (t ++ u) ≤ t.length) :
    exponentLength t = exponentLength (t ++ u) := by
  cases t with
  | nil => exact (Nat.le_zero.1 h).symm
  | cons c cs =>
    simp only [List.cons_append, exponentLength] at h ⊢
    by_cases hc : (c == 'e' || c == 'E') = true
    · simp only [hc, if_true, List.length_cons] at h ⊢
      have hdigits : signedDigitsLength (cs ++ u) ≤ cs.length := by
        split at h <;> omega
      rw [signedDigitsLength_of_append hdigits]
    · simp [hc]

lemma local_number : Pattern.number.Local := by
  intro t u n h hn
  simp only [Pattern.number] at h ⊢
  split at h
  next => cases h
  next m hm =>
    simp only [Option.some.injEq] at h
    have hdigits : m + 1 ≤ t.length := by omega
    rw [List.drop_append_of_le_length hdigits] at h
    have hfraction : fractionLength (t.drop (m + 1)) = fractionLength (t.drop (m + 1) ++ u) :=
      fractionLength_of_append (by rw [List.length_drop]; omega)
    rw [← hfraction] at h
    have hboth : m + 1 + fractionLength (t.drop (m + 1)) ≤ t.length := by omega
    rw [List.drop_append_of_le_length hboth] at h
    have hexponent := exponentLength_of_append (u := u)
      (t := t.drop (m + 1 + fractionLength (t.drop (m + 1)))) (by rw [List.length_drop]; omega)
    rw [← hexponent] at h
    rw [runLength_of_append (u := u) (by omega), hm]
    simp only [h]

lemma persists_number : Pattern.number.Persists := by
  intro t u n h
  have hle := runLength_le_append (p := Char.isDigit) (t := t) (u := u)
  simp only [Pattern.number] at h ⊢
  split at h
  next => cases h
  next m hm =>
    split
    next hzero => omega
    next => exact Option.some_ne_none _

lemma quotedTail?_eq_some_iff {quote : Char} {cs : List Char} {n : Nat} :
    quotedTail? quote cs = some n ↔
      n ≠ 0 ∧ ((cs.takeWhile (· != '\n')).reverse.dropWhile (· != quote)).length = n := by
  unfold quotedTail?
  split
  next hzero =>
    rw [hzero]
    constructor
    · rintro ⟨⟩
    · rintro ⟨hne, rfl⟩
      exact absurd rfl hne
  next m hm =>
    rw [hm, Option.some.injEq]
    constructor
    · rintro rfl
      exact ⟨Nat.succ_ne_zero m, rfl⟩
    · exact fun h => h.2

lemma quotedTail?_of_append {quote : Char} {n : Nat} (h : quotedTail? quote (t ++ u) = some n)
    (hn : n ≤ t.length) : quotedTail? quote t = some n := by
  obtain ⟨hne, hlength⟩ := quotedTail?_eq_some_iff.1 h
  refine quotedTail?_eq_some_iff.2 ⟨hne, ?_⟩
  rw [List.takeWhile_append] at hlength
  by_cases hall : (t.takeWhile (· != '\n')).length = t.length
  · have hline : t.takeWhile (· != '\n') = t := (List.takeWhile_prefix _).eq_of_length hall
    rw [if_pos hall, List.reverse_append, List.dropWhile_append] at hlength
    rw [hline]
    split at hlength
    next hnone => exact hlength
    next hsome =>
      -- with a quote behind the text the lexeme would be longer than the text
      have hpos : 0 < ((u.takeWhile (· != '\n')).reverse.dropWhile (· != quote)).length :=
        List.length_pos_iff.2 (by simpa using hsome)
      rw [List.length_append, List.length_reverse] at hlength
      omega
  · rwa [if_neg hall] at hlength

lemma quotedTail?_append_ne_none {quote : Char} {n : Nat} (h : quotedTail? quote t = some n) :
    quotedTail? quote (t ++ u) ≠ none := by
  obtain ⟨hne, hlength⟩ := quotedTail?_eq_some_iff.1 h
  rw [Option.ne_none_iff_exists']
  refine ⟨_, quotedTail?_eq_some_iff.2 ⟨?_, rfl⟩⟩
  rw [List.takeWhile_append]
  split
  next hall =>
    have hline : t.takeWhile (· != '\n') = t := (List.takeWhile_prefix _).eq_of_length hall
    rw [hline] at hlength
    rw [List.reverse_append, List.dropWhile_append]
    split
    next => rwa [hlength]
    next hsome =>
      rw [List.length_append]
      have hpos : 0 < ((u.takeWhile (· != '\n')).reverse.dropWhile (· != quote)).length :=
        List.length_pos_iff.2 (by simpa using hsome)
      omega
  next => rwa [hlength]

lemma local_quoted (quote : Char) : (Pattern.quoted quote).Local := by
  intro t u n h hn
  cases t with
  | nil =>
    have hpos := (Pattern.quoted quote).length_pos h
    exact absurd hn (Nat.not_le_of_gt hpos)
  | cons c cs =>
    simp only [Pattern.quoted, List.cons_append] at h ⊢
    by_cases hc : c = quote
    · rw [if_pos hc] at h ⊢
      obtain ⟨m, hm, rfl⟩ := Option.map_eq_some_iff.1 h
      rw [quotedTail?_of_append hm (Nat.le_of_succ_le_succ hn), Option.map_some]
    · rw [if_neg hc] at h
      cases h

lemma persists_quoted (quote : Char) : (Pattern.quoted quote).Persists := by
  intro t u n h
  cases t with
  | nil => cases h
  | cons c cs =>
    simp only [Pattern.quoted, List.cons_append] at h ⊢
    by_cases hc : c = quote
    · rw [if_pos hc] at h ⊢
      obtain ⟨m, hm, rfl⟩ := Option.map_eq_some_iff.1 h
      exact fun hnone => quotedTail?_append_ne_none hm (Option.map_eq_none_iff.1 hnone)
    · rw [if_neg hc] at h
      cases h

lemma regexBody?_of_append {n : Nat} (h : regexBody? (t ++ u) = some n) (hn : n + 1 ≤ t.length) :
    regexBody? t = some n := by
  fun_induction regexBody? t generalizing n with
  | case1 => cases hn
  | case2 cs => exact h
  | case3 cs => cases h
  | case4 =>
    cases u with
    | nil => cases h
    | cons d u =>
      by_cases hd : d = '\n'
      · subst hd
        cases h
      · rw [List.cons_append, List.nil_append, regexBody?.eq_6 _ _ hd] at h
        obtain ⟨m, -, rfl⟩ := Option.map_eq_some_iff.1 h
        simp at hn
  | case5 cs => cases h
  | case6 c cs hc ih =>
    rw [List.cons_append, List.cons_append, regexBody?.eq_6 _ _ hc] at h
    obtain ⟨m, hm, rfl⟩ := Option.map_eq_some_iff.1 h
    rw [ih hm (by simp only [List.length_cons] at hn; omega), Option.map_some]
  | case7 c cs hslash hline hend _ hescape ih =>
    have hback : c ≠ '\\' := by
      rintro rfl
      cases cs with
      | nil => exact hend rfl rfl
      | cons d cs => exact hescape d cs rfl rfl
    rw [List.cons_append, regexBody?.eq_7 _ _ hslash hline (fun h => absurd h hback)
      (fun _ h => absurd h hback) (fun _ _ h => absurd h hback)] at h
    obtain ⟨m, hm, rfl⟩ := Option.map_eq_some_iff.1 h
    rw [ih hm (Nat.le_of_succ_le_succ hn), Option.map_some]

lemma regexBody?_append_of_some {n : Nat} (h : regexBody? t = some n) :
    regexBody? (t ++ u) = some n := by
  fun_induction regexBody? t generalizing n with
  | case1 => cases h
  | case2 cs => exact h
  | case3 cs => cases h
  | case4 => cases h
  | case5 cs => cases h
  | case6 c cs hc ih =>
    obtain ⟨m, hm, rfl⟩ := Option.map_eq_some_iff.1 h
    rw [List.cons_append, List.cons_append, regexBody?.eq_6 _ _ hc, ih hm, Option.map_some]
  | case7 c cs hslash hline hend _ hescape ih =>
    have hback : c ≠ '\\' := by
      rintro rfl
      cases cs with
      | nil => exact hend rfl rfl
      | cons d cs => exact hescape d cs rfl rfl
    obtain ⟨m, hm, rfl⟩ := Option.map_eq_some_iff.1 h
    rw [List.cons_append, regexBody?.eq_7 _ _ hslash hline (fun h => absurd h hback)
      (fun _ h => absurd h hback) (fun _ _ h => absurd h hback), ih hm, Option.map_some]

lemma local_regex : Pattern.regex.Local := by
  intro t u n h hn
  cases t with
  | nil =>
    have hpos := Pattern.regex.length_pos h
    exact absurd hn (Nat.not_le_of_gt hpos)
  | cons c cs =>
    by_cases hc : c = '/'
    · subst hc
      simp only [Pattern.regex, List.cons_append] at h ⊢
      split at h
      next m hbody =>
        cases h
        simp only [List.length_cons] at hn
        have hle : m + 2 ≤ cs.length := by omega
        rw [List.drop_append_of_le_length hle] at hn ⊢
        have hflags : runLength Char.isLower (cs.drop (m + 2) ++ u) ≤ (cs.drop (m + 2)).length := by
          rw [List.length_drop]
          omega
        simp only [regexBody?_of_append hbody (by omega), runLength_of_append hflags]
      next => cases h
    · simp [Pattern.regex, hc] at h

lemma persists_regex : Pattern.regex.Persists := by
  intro t u n h
  cases t with
  | nil => cases h
  | cons c cs =>
    by_cases hc : c = '/'
    · subst hc
      simp only [Pattern.regex, List.cons_append] at h ⊢
      split at h
      next m hbody => simp [regexBody?_append_of_some hbody]
      next => cases h
    · simp [Pattern.regex, hc] at h

/-! ### Marks and words -/

lemma local_oneOf {texts : List String} {h : ∀ t ∈ texts, t ≠ ""} :
    (Pattern.oneOf texts h).Local := by
  intro t u n hlength hn
  unfold Pattern.oneOf firstWord? at hlength ⊢
  obtain ⟨before, w, behind, hsplit, hw, hbefore⟩ := List.findSome?_eq_some_iff.1 hlength
  refine List.findSome?_eq_some_iff.2 ⟨before, w, behind, hsplit, ?_, fun v hv => ?_⟩
  · split at hw
    next hfront =>
      cases hw
      have hprefix := List.isPrefixOf_iff_prefix.1 hfront
      have ht := List.prefix_of_prefix_length_le hprefix (List.prefix_append t u) hn
      rw [if_pos (List.isPrefixOf_iff_prefix.2 ht)]
    next => cases hw
  · have hnone := hbefore v hv
    split at hnone
    next => cases hnone
    next hfront =>
      rw [if_neg]
      intro ht
      have hprefix := (List.isPrefixOf_iff_prefix.1 ht).trans (List.prefix_append t u)
      exact hfront (List.isPrefixOf_iff_prefix.2 hprefix)

lemma persists_oneOf {texts : List String} {h : ∀ t ∈ texts, t ≠ ""} :
    (Pattern.oneOf texts h).Persists := by
  intro t u n hlength hnone
  unfold Pattern.oneOf firstWord? at hlength hnone
  obtain ⟨w, hw, hfound⟩ := List.exists_of_findSome?_eq_some hlength
  split at hfound
  next hfront =>
    have hprefix := (List.isPrefixOf_iff_prefix.1 hfront).trans (List.prefix_append t u)
    have := List.findSome?_eq_none_iff.1 hnone w hw
    rw [if_pos (List.isPrefixOf_iff_prefix.2 hprefix)] at this
    cases this
  next => cases hfound

lemma take_of_oneOf {texts : List String} {h : ∀ t ∈ texts, t ≠ ""} {cs : List Char} {n : Nat}
    (hlength : (Pattern.oneOf texts h).length? cs = some n) :
    ∃ text ∈ texts, cs.take n = text.toList := by
  unfold Pattern.oneOf firstWord? at hlength
  obtain ⟨w, hw, hfound⟩ := List.exists_of_findSome?_eq_some hlength
  obtain ⟨text, htext, rfl⟩ := List.mem_map.1 hw
  split at hfound
  next hfront =>
    cases hfound
    exact ⟨text, htext,
      (List.prefix_iff_eq_take.1 (List.isPrefixOf_iff_prefix.1 hfront)).symm⟩
  next => cases hfound

/-- The whole words that a pattern knows are made of word characters. -/
def AreWords (words : List String) : Prop :=
  ∀ word ∈ words, IsWord word.toList ∧ word.toList.all isWordChar = true

instance (words : List String) : Decidable (AreWords words) :=
  inferInstanceAs (Decidable (∀ word ∈ words, _))

lemma isPrefixOf_and_boundary_iff {w cs : List Char} (hw : w.all isWordChar = true) :
    (w.isPrefixOf cs && !(cs.drop w.length).head?.any isWordChar) = true ↔
      cs.takeWhile isWordChar = w := by
  rw [Bool.and_eq_true, List.isPrefixOf_iff_prefix]
  constructor
  · rintro ⟨⟨rest, rfl⟩, hend⟩
    rw [List.drop_left] at hend
    rw [List.takeWhile_append_of_pos (List.all_eq_true.1 hw)]
    cases rest with
    | nil => simp
    | cons c rest =>
      have hc : isWordChar c = false := by simpa using hend
      simp [hc]
  · rintro rfl
    refine ⟨List.takeWhile_prefix _, ?_⟩
    have hdrop := drop_runLength isWordChar cs
    unfold runLength at hdrop
    rw [hdrop]
    cases hrest : cs.dropWhile isWordChar with
    | nil => rfl
    | cons c rest =>
      have hc := List.head_dropWhile_not isWordChar (l := cs) (by simp [hrest])
      simp only [hrest, List.head_cons] at hc
      simp [hc]

/-- A pattern of whole words reads the word characters at the front, if they are one of the words. -/
lemma wholeWord_eq_some_iff {words : List String} {h : ∀ t ∈ words, t ≠ ""} (hwords : AreWords words)
    {cs : List Char} {n : Nat} : (Pattern.wholeWord words h).length? cs = some n ↔
      n = runLength isWordChar cs ∧ cs.takeWhile isWordChar ∈ words.map String.toList := by
  have hword : ∀ w ∈ words.map String.toList, w.all isWordChar = true := by
    rintro w hw
    obtain ⟨word, hmem, rfl⟩ := List.mem_map.1 hw
    exact (hwords word hmem).2
  have hforward : ∀ {m}, (Pattern.wholeWord words h).length? cs = some m →
      m = runLength isWordChar cs ∧ cs.takeWhile isWordChar ∈ words.map String.toList := by
    intro m hm
    obtain ⟨w, hw, hfound⟩ := List.exists_of_findSome?_eq_some hm
    split at hfound
    next hfront =>
      cases hfound
      have heq := (isPrefixOf_and_boundary_iff (hword w hw)).1 hfront
      refine ⟨?_, heq ▸ hw⟩
      rw [runLength, heq]
    next => cases hfound
  refine ⟨hforward, ?_⟩
  rintro ⟨hn, hmem⟩
  cases hfound : (Pattern.wholeWord words h).length? cs with
  | none =>
    have hnone := List.findSome?_eq_none_iff.1 hfound _ hmem
    rw [if_pos ((isPrefixOf_and_boundary_iff (hword _ hmem)).2 rfl)] at hnone
    cases hnone
  | some m => rw [hn, (hforward hfound).1]

lemma local_wholeWord {words : List String} {h : ∀ t ∈ words, t ≠ ""} (hwords : AreWords words) :
    (Pattern.wholeWord words h).Local := by
  intro t u n hlength hn
  obtain ⟨rfl, hmem⟩ := (wholeWord_eq_some_iff hwords).1 hlength
  have hrun := runLength_of_append hn
  refine (wholeWord_eq_some_iff hwords).2 ⟨hrun.symm, ?_⟩
  rw [← take_runLength] at hmem ⊢
  rwa [hrun, ← List.take_append_of_le_length hn]

/-- A whole word persists if no word character follows where it takes up all of the text. -/
lemma wholeWord_append_ne_none {words : List String} {h : ∀ t ∈ words, t ≠ ""}
    (hwords : AreWords words) {n : Nat} (hlength : (Pattern.wholeWord words h).length? t = some n)
    (hu : IsWord t → u.head?.any isWordChar = false) :
    (Pattern.wholeWord words h).length? (t ++ u) ≠ none := by
  obtain ⟨rfl, hmem⟩ := (wholeWord_eq_some_iff hwords).1 hlength
  have htake : (t ++ u).takeWhile isWordChar = t.takeWhile isWordChar := by
    rw [List.takeWhile_append]
    split
    next hall =>
      have ht : t.takeWhile isWordChar = t := (List.takeWhile_prefix _).eq_of_length hall
      rw [ht] at hmem ⊢
      obtain ⟨word, hword, rfl⟩ := List.mem_map.1 hmem
      have hend := hu (hwords word hword).1
      cases u with
      | nil => simp
      | cons c u =>
        have hc : isWordChar c = false := by simpa using hend
        simp [hc]
    next => rfl
  rw [Option.ne_none_iff_exists']
  exact ⟨_, (wholeWord_eq_some_iff hwords).2 ⟨rfl, htake ▸ hmem⟩⟩

lemma functionStar_eq_some_iff {cs : List Char} {n : Nat} :
    Pattern.functionStar.length? cs = some n ↔ ∃ more, cs = "function".toList ++ more ∧
      n = 9 + runLength isBlank more ∧ (more.drop (runLength isBlank more)).head? = some '*' := by
  have hdrop : ∀ (more : List Char) (k : Nat),
      ("function".toList ++ more).drop (8 + k) = more.drop k := fun more k =>
    @List.drop_length_add_append _ "function".toList more k
  simp only [Pattern.functionStar]
  constructor
  · intro h
    split at h
    next hfront =>
      obtain ⟨more, rfl⟩ := List.isPrefixOf_iff_prefix.1 hfront
      have hmore : ("function".toList ++ more).drop 8 = more := hdrop more 0
      rw [hmore, hdrop] at h
      split at h
      next hstar =>
        cases h
        exact ⟨more, rfl, by omega, hstar⟩
      next => cases h
    next => cases h
  · rintro ⟨more, rfl, rfl, hstar⟩
    have hmore : ("function".toList ++ more).drop 8 = more := hdrop more 0
    rw [if_pos (List.isPrefixOf_iff_prefix.2 ⟨more, rfl⟩), hmore, hdrop, if_pos hstar]
    congr 1
    omega

lemma local_functionStar : Pattern.functionStar.Local := by
  intro t u n h hn
  obtain ⟨more, hmore, rfl, hstar⟩ := functionStar_eq_some_iff.1 h
  have hlength : "function".toList.length = 8 := rfl
  have hprefix : "function".toList <+: t :=
    List.prefix_of_prefix_length_le ⟨more, hmore.symm⟩ (List.prefix_append t u) (by omega)
  obtain ⟨rest, rfl⟩ := hprefix
  rw [List.append_assoc, List.append_cancel_left_eq] at hmore
  subst hmore
  rw [List.length_append, hlength] at hn
  refine functionStar_eq_some_iff.2 ⟨rest, rfl, ?_, ?_⟩
  · rw [runLength_of_append (t := rest) (u := u) (by omega)]
  · rwa [runLength_of_append (t := rest) (u := u) (by omega), ← head?_drop_append (u := u) (by omega)]

lemma functionStar_append_of_some {n : Nat} (h : Pattern.functionStar.length? t = some n) :
    Pattern.functionStar.length? (t ++ u) = some n := by
  obtain ⟨more, rfl, rfl, hstar⟩ := functionStar_eq_some_iff.1 h
  have hlt := lt_length_of_head? hstar
  refine functionStar_eq_some_iff.2 ⟨more ++ u, List.append_assoc _ _ _, ?_, ?_⟩
  · rw [runLength_append_of_lt hlt]
  · rw [runLength_append_of_lt hlt, head?_drop_append hlt, hstar]

lemma local_identifier : Pattern.identifier.Local := by
  intro t u n h hn
  cases t with
  | nil =>
    have hpos := Pattern.identifier.length_pos h
    exact absurd hn (Nat.not_le_of_gt hpos)
  | cons c cs =>
    simp only [Pattern.identifier, List.cons_append] at h ⊢
    by_cases hc : isNameStart c = true
    · rw [if_pos hc, Option.some.injEq] at h
      subst h
      rw [if_pos hc, runLength_of_append (Nat.le_of_succ_le_succ hn)]
    · rw [if_neg hc] at h
      cases h

lemma persists_identifier : Pattern.identifier.Persists := by
  intro t u n h
  cases t with
  | nil => cases h
  | cons c cs =>
    simp only [Pattern.identifier, List.cons_append] at h ⊢
    by_cases hc : isNameStart c = true
    · rw [if_pos hc]
      exact Option.some_ne_none _
    · rw [if_neg hc] at h
      cases h

lemma Rule.local_table : ∀ rule ∈ Rule.table, rule.pattern.Local := by
  simp only [Rule.table, Rule.blanks, Rule.literals, Rule.punctuation, Rule.operators, Rule.words,
    Rule.skip, Rule.make, List.cons_append, List.nil_append, List.forall_mem_cons]
  and_intros
  all_goals first
    | exact local_run _
    | exact local_lineComment
    | exact local_blockComment
    | exact local_bigInt
    | exact local_number
    | exact local_quoted _
    | exact local_regex
    | exact local_oneOf
    | exact local_wholeWord (by decide)
    | exact local_functionStar
    | exact local_identifier
    | exact List.forall_mem_nil _

/-- A rule that reads something off a text also does with more text behind it, unless that goes on
with a word. -/
lemma Rule.append_ne_none (hu : IsWord t → u.head?.any isWordChar = false) :
    ∀ rule ∈ Rule.table, ∀ n, rule.pattern.length? t = some n →
      rule.pattern.length? (t ++ u) ≠ none := by
  simp only [Rule.table, Rule.blanks, Rule.literals, Rule.punctuation, Rule.operators, Rule.words,
    Rule.skip, Rule.make, List.cons_append, List.nil_append, List.forall_mem_cons]
  and_intros
  all_goals first
    | exact persists_run _ t u
    | exact persists_lineComment t u
    | exact persists_blockComment t u
    | exact persists_bigInt t u
    | exact persists_number t u
    | exact persists_quoted _ t u
    | exact persists_regex t u
    | exact persists_oneOf t u
    | exact fun n hn => wholeWord_append_ne_none (by decide) hn hu
    | exact fun n hn => by rw [functionStar_append_of_some hn]; exact Option.some_ne_none n
    | exact persists_identifier t u
    | exact List.forall_mem_nil _

lemma head?_any_of_runLength {p : Char → Bool} (h : runLength p (t ++ u) = t.length) :
    u.head?.any p = false := by
  have hall : (t.takeWhile p).length = t.length := (runLength_of_append (Nat.le_of_eq h)).trans h
  unfold runLength at h
  rw [List.takeWhile_append, if_pos hall, List.length_append] at h
  cases u with
  | nil => rfl
  | cons c u =>
    by_cases hc : p c = true
    · rw [List.takeWhile_cons, if_pos hc, List.length_cons] at h
      omega
    · simpa using hc

lemma isNameChar_of_isWordChar {c : Char} (h : isWordChar c = true) : isNameChar c = true := by
  rw [isNameChar, h, Bool.true_or]

/-- No rule that comes before the words reads a whole word. -/
lemma Rule.ne_length_of_isWord (ht : IsWord t) :
    ∀ rule ∈ Rule.blanks ++ Rule.literals ++ Rule.punctuation ++ Rule.operators,
      rule.pattern.length? (t ++ u) ≠ some t.length := by
  obtain ⟨c, tail, hcons, hblank, hdigit, hslash, hsingle, hdouble⟩ := ht.isPlain.exists_cons
  have hmark : ∀ {texts : List String} {h : ∀ t ∈ texts, t ≠ ""},
      (∀ text ∈ texts, ¬IsWord text.toList) →
        (Pattern.oneOf texts h).length? (t ++ u) ≠ some t.length := by
    intro texts h htexts hlength
    obtain ⟨text, hmem, htake⟩ := take_of_oneOf hlength
    rw [List.take_left] at htake
    exact htexts text hmem (htake ▸ ht)
  simp only [Rule.blanks, Rule.literals, Rule.punctuation, Rule.operators, Rule.skip, Rule.make,
    List.cons_append, List.nil_append, List.forall_mem_cons]
  and_intros
  all_goals first
    | exact hmark (by decide)
    | exact List.forall_mem_nil _
    | simp [hcons, runLength, hblank, hdigit, hslash, hsingle, hdouble, Pattern.run,
        Pattern.lineComment, Pattern.blockComment, Pattern.bigInt, Pattern.number, Pattern.quoted,
        Pattern.regex]

/-- A lexeme with the shape of a word ends where no word character follows. -/
lemma boundary_of_first? {kind? : Option Kind} (ht : IsWord t)
    (h : Rule.first? (t ++ u) = some (kind?, t.length)) : u.head?.any isWordChar = false := by
  obtain ⟨rule, hmem, -, hlength⟩ := Rule.exists_of_first? h
  have hwhole : ∀ {words : List String} {h : ∀ t ∈ words, t ≠ ""}, AreWords words →
      (Pattern.wholeWord words h).length? (t ++ u) = some t.length →
        u.head?.any isWordChar = false := by
    intro words h hwords hlength
    exact head?_any_of_runLength ((wholeWord_eq_some_iff hwords).1 hlength).1.symm
  have hstar : Pattern.functionStar.length? (t ++ u) ≠ some t.length := by
    intro hlength
    obtain ⟨more, hmore, hn, hlast⟩ :=
      functionStar_eq_some_iff.1 (local_functionStar _ _ _ hlength (Nat.le_refl _))
    obtain ⟨rest, hrest⟩ := List.head?_eq_some_iff.1 hlast
    have hin : '*' ∈ t := by
      rw [hmore]
      refine List.mem_append_right _ (List.mem_of_mem_drop (i := runLength isBlank more) ?_)
      rw [hrest]
      exact List.mem_cons_self
    exact absurd (List.all_eq_true.1 ht.2 _ hin) (by decide)
  have hwords : ∀ rule ∈ Rule.words, rule.pattern.length? (t ++ u) = some t.length →
      u.head?.any isWordChar = false := by
    simp only [Rule.words, Rule.make, List.forall_mem_cons]
    and_intros
    all_goals first
      | exact hwhole (by decide)
      | exact fun hlength => absurd hlength hstar
      | exact List.forall_mem_nil _
  rw [Rule.table, List.mem_append, List.mem_append, List.mem_singleton] at hmem
  rcases hmem with (hother | hword) | rfl
  · exact absurd hlength (Rule.ne_length_of_isWord ht rule hother)
  · exact hwords rule hword hlength
  · obtain ⟨c, tail, rfl, hstart⟩ := ht.exists_cons
    simp only [Rule.make, Pattern.identifier, List.cons_append, if_pos hstart, List.length_cons,
      Option.some.injEq, Nat.add_right_cancel_iff] at hlength
    have hend := head?_any_of_runLength hlength
    cases u with
    | nil => rfl
    | cons d u =>
      simp only [List.head?_cons, Option.any_some] at hend ⊢
      rw [← Bool.not_eq_true] at hend ⊢
      exact fun hd => hend (isNameChar_of_isWordChar hd)

/-- The text of a lexeme is by itself the same lexeme. -/
theorem first?_of_append {kind? : Option Kind}
    (h : Rule.first? (t ++ u) = some (kind?, t.length)) :
    Rule.first? t = some (kind?, t.length) := by
  unfold Rule.first? at h ⊢
  obtain ⟨before, rule, behind, htable, hrule, hbefore⟩ := List.findSome?_eq_some_iff.1 h
  refine List.findSome?_eq_some_iff.2 ⟨before, rule, behind, htable, ?_, fun earlier hearlier => ?_⟩
  · obtain ⟨n, hn, hpair⟩ := Option.map_eq_some_iff.1 hrule
    cases hpair
    have hmem : rule ∈ Rule.table := by
      rw [htable]
      simp
    rw [Rule.local_table rule hmem t u _ hn (Nat.le_refl _), Option.map_some]
  · have hnone := Option.map_eq_none_iff.1 (hbefore earlier hearlier)
    have hmem : earlier ∈ Rule.table := by
      rw [htable]
      simp [hearlier]
    rw [Option.map_eq_none_iff, Option.eq_none_iff_forall_not_mem]
    intro n hn
    exact Rule.append_ne_none (fun ht => boundary_of_first? ht h) earlier hmem n hn hnone

end Patterns

end ScriptTree
