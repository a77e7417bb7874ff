import ScriptTree.Proofs.Lines
import ScriptTree.Proofs.Progress

/-!
# A text and a closing bracket behind it

A text is read in the same way by itself and in front of a closing bracket that stands on the next
line, until its end. There the first reading meets the end of the source and the second one the
bracket. Only template text that has no end in the text takes the bracket in.

Main statements: `Closer.next_append` and `Closer.nextTemplate_append`.
-/

namespace ScriptTree

/-- A closing bracket on a line of its own, and the text behind it. -/
structure Closer where
  kind : Kind
  bracket : Char
  tail : List Char
  closes : kind = .rBrace ∧ bracket = '}' ∨ kind = .rParen ∧ bracket = ')'

namespace Closer

variable {z : Closer} {t : List Char}

/-- The text from the end of the line in front of the bracket on. -/
def text (z : Closer) : List Char :=
  '\n' :: z.bracket :: z.tail

/-- No comment that a text begins can run past the bracket. -/
def Suits (z : Closer) (cs : List Char) : Prop :=
  '/' ∉ z.tail ∨ ¬['/', '*'] <:+: cs

lemma endsLine (z : Closer) : EndsLine z.text :=
  Or.inr ⟨_, rfl⟩

lemma Suits.of_suffix {cs ds : List Char} (h : z.Suits cs) (hsuffix : ds <:+ cs) : z.Suits ds :=
  h.imp_right fun hcs hds => hcs (hds.trans hsuffix.isInfix)

lemma blockCommentTail?_eq_none {cs : List Char} (h : '/' ∉ cs) : blockCommentTail? cs = none := by
  rw [Option.eq_none_iff_forall_ne_some]
  intro n hn
  obtain ⟨body, -, hcs, -⟩ := blockCommentTail?_eq_some hn
  apply h
  rw [hcs]
  simp

lemma blockCommentTail?_append (hz : '/' ∉ z.tail) :
    blockCommentTail? (t ++ z.text) = blockCommentTail? t := by
  have hslash : z.bracket ≠ '/' := by
    rcases z.closes with ⟨-, h⟩ | ⟨-, h⟩ <;> simp [h]
  fun_induction blockCommentTail? t with
  | case1 =>
    rw [List.nil_append, blockCommentTail?_eq_none]
    simp [text, hz, hslash.symm]
  | case2 cs => rfl
  | case3 c cs hfront ih =>
    rw [List.cons_append, blockCommentTail?.eq_3, ih]
    intro tail hc hcs
    cases cs with
    | nil => cases hcs
    | cons d cs =>
      cases hcs
      exact hfront cs hc rfl

lemma blockComment_append (hz : z.Suits t) :
    Pattern.blockComment.length? (t ++ z.text) = Pattern.blockComment.length? t := by
  rcases t with _ | ⟨c, _ | ⟨d, cs⟩⟩
  · rfl
  · simp [Pattern.blockComment, text]
  · by_cases hfront : c = '/' ∧ d = '*'
    · obtain ⟨rfl, rfl⟩ := hfront
      rcases hz with hz | hz
      · simp only [Pattern.blockComment, List.cons_append, blockCommentTail?_append hz]
      · exact absurd ⟨[], cs, rfl⟩ hz
    · have hnone : ∀ cs, Pattern.blockComment.length? (c :: d :: cs) = none := by
        intro cs
        simp only [Pattern.blockComment]
        split
        next heq =>
          cases heq
          exact absurd ⟨rfl, rfl⟩ hfront
        next => rfl
      rw [List.cons_append, List.cons_append, hnone, hnone]

/-- A star behind the word `function` stands in front of the bracket or nowhere. -/
lemma functionStar_append :
    Pattern.functionStar.length? (t ++ z.text) = Pattern.functionStar.length? t := by
  have hword : "function".toList.isPrefixOf (t ++ z.text) = "function".toList.isPrefixOf t :=
    isPrefixOf_append (by decide) z.endsLine
  simp only [Pattern.functionStar, hword]
  by_cases hfront : "function".toList.isPrefixOf t = true
  · obtain ⟨more, rfl⟩ := List.isPrefixOf_iff_prefix.1 hfront
    have hlength : "function".toList.length = 8 := rfl
    have hdrop : ∀ more n, ("function".toList ++ more).drop (8 + n) = more.drop n := by
      intro more n
      rw [← hlength, List.drop_length_add_append]
    have hdrop' : ∀ more, ("function".toList ++ more).drop 8 = more := fun more => hdrop more 0
    simp only [List.append_assoc, hdrop, hdrop', hfront, if_true]
    unfold runLength
    rw [List.takeWhile_append]
    split
    next hall =>
      have hblank : isBlank z.bracket = false := by
        rcases z.closes with ⟨-, h⟩ | ⟨-, h⟩ <;> rw [h] <;> rfl
      have hstar : z.bracket ≠ '*' := by
        rcases z.closes with ⟨-, h⟩ | ⟨-, h⟩ <;> simp [h]
      have hnewline : isBlank '\n' = true := rfl
      simp [hall, text, hblank, hnewline, hstar]
    next hsome =>
      have hlt := runLength_le isBlank more
      unfold runLength at hlt
      rw [List.drop_append_of_le_length hlt]
      rcases hrest : more.drop (more.takeWhile isBlank).length with _ | ⟨c, cs⟩
      · have := List.drop_eq_nil_iff.1 hrest
        omega
      · rfl
  · simp only [hfront]
    rfl

/-- The bracket is far enough behind a lexeme not to be a part of it. -/
lemma first?_append {c : Char} (hc : isBlank c = false) (hz : z.Suits (c :: t)) :
    Rule.first? (c :: t ++ z.text) = Rule.first? (c :: t) := by
  apply ScriptTree.first?_append z.endsLine _ functionStar_append
  simp only [Rule.blanks, Rule.skip, List.forall_mem_cons]
  refine ⟨?_, endsWith_lineComment _ z.endsLine, blockComment_append hz, List.forall_mem_nil _⟩
  simp [Pattern.run, runLength, hc]

lemma first?_bracket (z : Closer) : Rule.first? (z.bracket :: z.tail) = some (some z.kind, 1) := by
  rcases z.closes with ⟨hkind, hbracket⟩ | ⟨hkind, hbracket⟩
  · rw [hkind, hbracket]
    rfl
  · rw [hkind, hbracket]
    rfl

/-- Both readings are in front of the same token of the text. -/
structure Along (z : Closer) (r s : Reading) : Prop where
  lexeme : r.lookahead.lexeme = s.lookahead.lexeme
  kind_ne : r.lookahead.kind ≠ .endOfFile
  rest : s.cursor.rest = r.cursor.rest ++ z.text
  suits : z.Suits r.cursor.rest

/-- The text is read: the first reading is at the end, the second one in front of the bracket. -/
structure Behind (z : Closer) (r s : Reading) : Prop where
  kind : r.lookahead.kind = .endOfFile
  rest : r.cursor.rest = []
  bracket : s.lookahead.kind = z.kind
  tail : s.cursor.rest = z.tail

/-- Both readings are at the same place. -/
inductive At (z : Closer) (r s : Reading) : Prop where
  | along (h : z.Along r s)
  | behind (h : z.Behind r s)

/-- Both readings come to a fault, or go on to the same place. -/
inductive Heads (z : Closer) :
    Except SyntaxError Token × Cursor → Except SyntaxError Token × Cursor → Prop where
  | fault {e f x y} : Heads z (.error e, x) (.error f, y)
  | token {t u x y} (h : z.At ⟨t, x⟩ ⟨u, y⟩) : Heads z (.ok t, x) (.ok u, y)

/-- Where the text goes on in front of the bracket, it goes on by itself. -/
lemma Heads.first {x : Except SyntaxError Token × Cursor} {token : Token} {after : Cursor}
    (h : z.Heads x (.ok token, after)) :
    ∃ t y, x = (.ok t, y) ∧ z.At ⟨t, y⟩ ⟨token, after⟩ := by
  cases h with
  | token hat => exact ⟨_, _, rfl, hat⟩

/-- Where the text goes on by itself, it goes on in front of the bracket. -/
lemma Heads.second {y : Except SyntaxError Token × Cursor} {token : Token} {after : Cursor}
    (h : z.Heads (.ok token, after) y) :
    ∃ u x, y = (.ok u, x) ∧ z.At ⟨token, after⟩ ⟨u, x⟩ := by
  cases h with
  | token hat => exact ⟨_, _, rfl, hat⟩

theorem next_append {x y : Cursor} (hrest : y.rest = x.rest ++ z.text) (hz : z.Suits x.rest) :
    z.Heads x.next y.next := by
  obtain ⟨i, cs⟩ := x
  obtain ⟨j, ds⟩ := y
  simp only at hrest hz
  subst hrest
  induction hlength : cs.length using Nat.strong_induction_on generalizing cs i j with
  | h n ih =>
    subst hlength
    cases cs with
    | nil =>
      rw [Cursor.next_of_nil rfl, List.nil_append, text, Cursor.next_blank rfl,
        Cursor.next_of_first? (first?_bracket z) (List.cons_ne_nil _ _)]
      exact .token (.behind ⟨rfl, rfl, rfl, rfl⟩)
    | cons c cs =>
      rw [List.cons_append]
      by_cases hc : isBlank c = true
      · rw [Cursor.next_blank hc, Cursor.next_blank hc]
        exact ih cs.length (Nat.lt_succ_self _) _ _ (hz.of_suffix (List.suffix_cons c cs)) _ rfl
      · have hsame := first?_append (Bool.eq_false_iff.2 hc) hz
        rw [List.cons_append] at hsame
        rcases hrule : Rule.first? (c :: cs) with _ | ⟨_ | kind, n⟩
        · rw [Cursor.next_of_fault hrule, Cursor.next_of_fault (hsame.trans hrule)]
          exact .fault
        · have hpos := Rule.pos_of_first? hrule
          have hle := Rule.le_length_of_first? hrule
          rw [Cursor.next_of_blanks hrule, Cursor.next_of_blanks (hsame.trans hrule)]
          unfold Cursor.skip
          simp only
          rw [← List.cons_append, List.drop_append_of_le_length hle]
          refine ih _ ?_ _ _ (hz.of_suffix (List.drop_suffix _ _)) _ rfl
          rw [List.length_drop, List.length_cons]
          omega
        · have hle := Rule.le_length_of_first? hrule
          rw [Cursor.next_of_first? hrule (List.cons_ne_nil _ _),
            Cursor.next_of_first? (hsame.trans hrule) (List.cons_ne_nil _ _)]
          refine .token (.along ⟨?_, Rule.kind_ne_endOfFile_of_first? hrule, ?_, ?_⟩)
          · simp only [Token.lexeme, Cursor.token, ← List.cons_append,
              List.take_append_of_le_length hle]
          · exact List.drop_append_of_le_length hle
          · exact hz.of_suffix (List.drop_suffix _ _)

/-- The text on lines of its own. -/
lemma next_line {x y : Cursor} (hrest : y.rest = '\n' :: (x.rest ++ z.text))
    (hz : z.Suits x.rest) : z.Heads x.next y.next := by
  obtain ⟨offset, rest⟩ := y
  simp only at hrest
  rw [hrest, Cursor.next_blank rfl]
  exact next_append rfl hz

/-- A character that does not end template text in front of the text of a bracket. -/
lemma templateLength_cons_append {c : Char} (htick : c ≠ '\x60')
    (hdollar : ∀ tail, c = '$' → t ≠ '\x7b' :: tail) (hback : c ≠ '\\') :
    templateLength (c :: (t ++ z.text)) = templateLength (t ++ z.text) + 1 := by
  apply templateLength.eq_5 _ _ htick
  · intro tail hc htail
    cases t with
    | nil => cases htail
    | cons d t =>
      cases htail
      exact hdollar t hc rfl
  · exact fun _ _ hc => absurd hc hback

/-- Text that has an end of its own ends there. -/
lemma templateLength_append_of_ne (h : t.drop (templateLength t) ≠ []) :
    templateLength (t ++ z.text) = templateLength t := by
  fun_induction templateLength t with
  | case1 => exact absurd rfl h
  | case2 cs => rfl
  | case3 cs => rfl
  | case4 c cs ih => rw [List.cons_append, List.cons_append, templateLength.eq_4, ih h]
  | case5 c cs htick hdollar hescape ih =>
    have hback : c ≠ '\\' := by
      rintro rfl
      cases cs with
      | nil => exact h rfl
      | cons d cs => exact hescape d cs rfl rfl
    rw [List.cons_append, templateLength_cons_append htick hdollar hback, ih h]

/-- Template text that comes to the bracket runs over it to the end. -/
def Passable (z : Closer) : Prop :=
  templateLength z.tail = z.tail.length

/-- Text that has no end of its own runs over the bracket to the end. -/
lemma templateLength_append_of_nil (h : t.drop (templateLength t) = []) (hz : z.Passable) :
    templateLength (t ++ z.text) = (t ++ z.text).length := by
  have hbracket : templateLength (z.bracket :: z.tail) = z.tail.length + 1 := by
    rw [← hz]
    rcases z.closes with ⟨-, heq⟩ | ⟨-, heq⟩ <;> rw [heq] <;> rfl
  have htext : templateLength z.text = z.text.length := by
    change templateLength (z.bracket :: z.tail) + 1 = z.tail.length + 2
    rw [hbracket]
  fun_induction templateLength t with
  | case1 => exact htext
  | case2 cs => cases h
  | case3 cs => cases h
  | case4 c cs ih =>
    rw [List.cons_append, List.cons_append, templateLength.eq_4, ih h]
    rfl
  | case5 c cs htick hdollar hescape ih =>
    by_cases hback : c = '\\'
    · subst hback
      cases cs with
      | nil =>
        change templateLength (z.bracket :: z.tail) + 2 = z.tail.length + 3
        rw [hbracket]
      | cons d cs => exact absurd rfl (hescape d cs rfl)
    · rw [List.cons_append, templateLength_cons_append htick hdollar hback, ih h]
      rfl

/-- Template text goes on where the text ends. The second reading finds no end either if there is
none behind the bracket. -/
structure Overruns (z : Closer) (r s : Reading) : Prop where
  kind : r.lookahead.kind = .endOfFile ∨ r.lookahead.kind = .templateString
  rest : r.cursor.rest = []
  second : z.Passable → s.lookahead.kind = .templateString ∧ s.cursor.rest = []

lemma nextTemplate_of_overrun {x : Cursor} {c : Char} {cs : List Char}
    (hrest : x.rest = t ++ z.text) (hx : x.rest = c :: cs) (htick : c ≠ '\x60')
    (hbrace : c ≠ '\x7d') (h : t.drop (templateLength t) = []) (hz : z.Passable) :
    x.nextTemplate.1.kind = .templateString ∧ x.nextTemplate.2.rest = [] := by
  have hlength := templateLength_append_of_nil h hz
  have hdrop : x.rest.drop (templateLength x.rest) = [] := by
    rw [hrest, hlength, List.drop_length]
  rw [Cursor.nextTemplate_of_plain hx htick hbrace (by simp [hdrop])]
  exact ⟨rfl, hdrop⟩

/-- Pieces of templates are the same too, if they end in the text. -/
theorem nextTemplate_append {x y : Cursor} (hrest : y.rest = x.rest ++ z.text)
    (hz : z.Suits x.rest) :
    z.Along ⟨x.nextTemplate.1, x.nextTemplate.2⟩ ⟨y.nextTemplate.1, y.nextTemplate.2⟩ ∨
      z.Overruns ⟨x.nextTemplate.1, x.nextTemplate.2⟩ ⟨y.nextTemplate.1, y.nextTemplate.2⟩ := by
  -- a token of `n` characters, with `m` characters passed over
  have halong : ∀ {kind : Kind} {n m : Nat}, kind ≠ .endOfFile → n ≤ x.rest.length →
      m ≤ x.rest.length →
      z.Along ⟨x.token kind n, x.skip m⟩ ⟨y.token kind n, y.skip m⟩ := by
    intro kind n m hkind hn hm
    refine ⟨?_, hkind, ?_, hz.of_suffix (List.drop_suffix _ _)⟩
    · simp only [Token.lexeme, Cursor.token, hrest, List.take_append_of_le_length hn]
    · simp only [Cursor.skip, hrest, List.drop_append_of_le_length hm]
  rcases hx : x.rest with _ | ⟨c, cs⟩
  · rw [Cursor.nextTemplate_of_nil hx]
    rw [hx] at hrest
    exact Or.inr ⟨Or.inl rfl, hx, fun hz =>
      nextTemplate_of_overrun hrest hrest (by decide) (by decide) rfl hz⟩
  · have hy : y.rest = c :: (cs ++ z.text) := by rw [hrest, hx, List.cons_append]
    have hone : 1 ≤ x.rest.length := by
      rw [hx]
      exact Nat.succ_le_succ (Nat.zero_le _)
    by_cases htick : c = '\x60'
    · subst htick
      rw [Cursor.nextTemplate_of_backtick hx, Cursor.nextTemplate_of_backtick hy]
      exact Or.inl (halong (by decide) hone hone)
    by_cases hbrace : c = '\x7d'
    · subst hbrace
      rw [Cursor.nextTemplate_of_brace hx, Cursor.nextTemplate_of_brace hy]
      exact Or.inl (halong (by decide) hone hone)
    have hle := templateLength_le x.rest
    by_cases hnil : x.rest.drop (templateLength x.rest) = []
    · rw [Cursor.nextTemplate_of_plain hx htick hbrace (by simp [hnil])]
      exact Or.inr ⟨Or.inr rfl, hnil, fun hz =>
        nextTemplate_of_overrun hrest hy htick hbrace hnil hz⟩
    · have hlength : templateLength y.rest = templateLength x.rest := by
        rw [hrest, templateLength_append_of_ne hnil]
      have hdrop : y.rest.drop (templateLength y.rest) =
          x.rest.drop (templateLength x.rest) ++ z.text := by
        rw [hlength, hrest, List.drop_append_of_le_length hle]
      refine Or.inl ?_
      rcases drop_templateLength x.rest with hend | ⟨tail, hend⟩ | ⟨tail, hend⟩
      · exact absurd hend hnil
      · rw [hend] at hdrop
        rw [Cursor.nextTemplate_of_plain hx htick hbrace (by simp [hend]),
          Cursor.nextTemplate_of_plain hy htick hbrace (by simp [hdrop]), hlength]
        exact halong (by decide) hle hle
      · have hlt := congrArg List.length hend
        rw [hend] at hdrop
        rw [Cursor.nextTemplate_of_insertion hx htick hbrace hend,
          Cursor.nextTemplate_of_insertion hy htick hbrace hdrop, hlength]
        rw [List.length_drop, List.length_cons] at hlt
        exact halong (by decide) hle (by omega)

end Closer

end ScriptTree
