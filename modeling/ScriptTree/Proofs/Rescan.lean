import ScriptTree.Proofs.Prefixes
import Mathlib.Data.List.Chain

/-!
# Reading the texts of tokens again

The text of a token is by itself the same token, and a line feed behind it changes that in two cases
only: text that opens a comment goes on to the next lines, and so does the word `function` if a star
is there. Apart from these, the texts of a source's tokens on lines of their own are read back.

Main statements: `Legible.scansBack` and `tokenize_texts`.
-/

namespace ScriptTree

/-- Behind the word `function` comes no star. -/
def ApartFromStar (text next : String) : Prop :=
  text = "function" → ¬['*'] <+: next.toList

/-- Texts that are read back from lines of their own. -/
structure Legible (texts : List String) : Prop where
  lines : ∀ text ∈ texts, OnLine text ∨ text = "function"
  apart : texts.IsChain ApartFromStar

section Lines

variable {t rest : List Char} {kind : Kind}

lemma kindOf_of_first? {text : String} {n : Nat}
    (h : Rule.first? text.toList = some (some kind, n)) : kindOf text = kind := by
  unfold kindOf
  rw [h]

lemma first?_eq_of_isToken {text : String} (h : IsToken kind text) :
    Rule.first? text.toList = some (some kind, text.toList.length) := by
  obtain ⟨n, hfirst, htake⟩ := first?_of_isToken h
  have hlength := congrArg List.length htake
  rw [List.length_take, Nat.min_eq_left (Rule.le_length_of_first? hfirst)] at hlength
  rw [hfirst, hlength]

/-- Only regular expressions begin as comments do. -/
lemma kind_of_slash_star (h : Rule.first? t = some (some kind, t.length))
    (ht : ['/', '*'] <+: t) : kind = .regex := by
  obtain ⟨cs, rfl⟩ := ht
  obtain ⟨rule, hmem, hkind, hlength⟩ := Rule.exists_of_first? h
  have hmark : ∀ {texts : List String} {h : ∀ t ∈ texts, t ≠ ""},
      (∀ text ∈ texts, ¬['/', '*'] <+: text.toList) →
        (Pattern.oneOf texts h).length? ('/' :: '*' :: cs) ≠ some (cs.length + 2) := by
    intro texts h htexts hlength
    obtain ⟨text, hmem, htake⟩ := take_of_oneOf hlength
    refine htexts text hmem ⟨cs, ?_⟩
    rw [← htake]
    simp
  have hothers : ∀ rule ∈ Rule.table, rule.kind? ≠ none → rule.kind? ≠ some .regex →
      rule.pattern.length? ('/' :: '*' :: cs) ≠ some (cs.length + 2) := by
    simp only [Rule.table, Rule.blanks, Rule.literals, Rule.punctuation, Rule.operators, Rule.words,
      Rule.skip, Rule.make, List.cons_append, List.nil_append, List.forall_mem_cons]
    and_intros
    all_goals first
      | exact fun hnone => absurd rfl hnone
      | exact fun _ hregex => absurd rfl hregex
      | exact fun _ _ => hmark (by decide)
      | exact fun _ _ => (Option.some_ne_none _).symm
      | exact List.forall_mem_nil _
  by_contra hne
  exact hothers rule hmem (by simp [hkind]) (by simp [hkind, hne]) hlength

lemma blockComment_eq_none {cs : List Char} (h : ¬['/', '*'] <+: cs) :
    Pattern.blockComment.length? cs = none := by
  simp only [Pattern.blockComment]
  split
  next cs => exact absurd ⟨cs, rfl⟩ h
  next => rfl

/-- Lexemes that begin with `function` are words, or have a star at their end. -/
lemma isWord_of_function {more : List Char}
    (h : Rule.first? ("function".toList ++ more) =
      some (some kind, ("function".toList ++ more).length))
    (hstar : Pattern.functionStar.length? ("function".toList ++ more) = none) :
    IsWord ("function".toList ++ more) := by
  obtain ⟨rule, hmem, -, hlength⟩ := Rule.exists_of_first? h
  have hothers : ∀ rule ∈ Rule.blanks ++ Rule.literals ++ Rule.punctuation ++ Rule.operators,
      rule.pattern.length? ("function".toList ++ more) = none := by
    simp only [Rule.blanks, Rule.literals, Rule.punctuation, Rule.operators, Rule.skip, Rule.make,
      List.cons_append, List.nil_append, List.forall_mem_cons]
    and_intros
    all_goals first
      | rfl
      | exact List.forall_mem_nil _
  have hwords : ∀ rule ∈ Rule.words, rule.kind? ≠ some .kwFunctionStar ∨
      rule.pattern = Pattern.functionStar := by
    simp only [Rule.words, Rule.make, List.forall_mem_cons]
    and_intros
    all_goals first
      | exact Or.inr trivial
      | exact Or.inl (by decide)
      | exact List.forall_mem_nil _
  rw [Rule.table, List.mem_append, List.mem_append, List.mem_singleton] at hmem
  rcases hmem with (hother | hword) | rfl
  · rw [hothers rule hother] at hlength
    cases hlength
  · rcases hwords rule hword with hne | heq
    · have hread := (isWord_of_words rule hword hne _ _ hlength).1
      rwa [List.take_length] at hread
    · rw [heq, hstar] at hlength
      cases hlength
  · have hread := (isWord_of_identifier hlength).1
    rwa [List.take_length] at hread

/-- A lexeme ends with its line if it does not open a comment and no star goes on with it. -/
theorem first?_append_of_lexeme (h : Rule.first? t = some (some kind, t.length))
    (hplain : ¬['/', '*'] <+: t) (hrest : EndsLine rest)
    (hstar : t = "function".toList → Pattern.functionStar.length? (t ++ rest) = none) :
    Rule.first? (t ++ rest) = some (some kind, t.length) := by
  rw [first?_append hrest _ _, h]
  · simp only [Rule.blanks, Rule.skip, List.forall_mem_cons]
    refine ⟨?_, endsWith_lineComment _ hrest, ?_, List.forall_mem_nil _⟩
    · cases t with
      | nil => cases h
      | cons c cs =>
        have hc : isBlank c = false := by
          rw [← Bool.not_eq_true]
          intro hc
          rw [Cursor.first?_blank hc] at h
          cases h
        simp [Pattern.run, runLength, hc]
    · have hbehind : ¬['/', '*'] <+: t ++ rest := by
        rwa [← List.isPrefixOf_iff_prefix, isPrefixOf_append (by decide) hrest,
          List.isPrefixOf_iff_prefix]
      rw [blockComment_eq_none hbehind, blockComment_eq_none hplain]
  · by_cases hfront : "function".toList.isPrefixOf t = true
    · cases hlength : Pattern.functionStar.length? t with
      | some n => exact functionStar_append_of_some hlength
      | none =>
        by_cases hword : t = "function".toList
        · exact hstar hword
        · obtain ⟨more, rfl⟩ := List.isPrefixOf_iff_prefix.1 hfront
          rw [endsWith_functionStar (isWord_of_function h hlength) hword _ hrest, hlength]
    · exact endsWith_functionStar_of_other (Bool.eq_false_iff.2 hfront) _ hrest

end Lines

lemma OnLine.first? {text : String} (h : OnLine text) :
    Rule.first? text.toList = some (some (kindOf text), text.toList.length) := by
  have hline := h [] (Or.inl rfl)
  rwa [List.append_nil] at hline

lemma first?_functionWord : Rule.first? "function".toList = some (some .kwFunction, 8) := by
  decide +kernel

lemma not_onLine_function : ¬OnLine "function" := by
  intro h
  have hline := h ['\n', '*'] (Or.inr ⟨_, rfl⟩)
  rw [kindOf_function] at hline
  exact absurd hline (by decide +kernel)

namespace Legible

variable {text next : String} {texts : List String}

lemma nil : Legible [] :=
  ⟨List.forall_mem_nil _, .nil⟩

lemma tail (h : Legible (text :: texts)) : Legible texts :=
  ⟨fun t ht => h.lines t (List.mem_cons_of_mem text ht), h.apart.tail⟩

lemma cons (h : OnLine text) (hrest : Legible texts) : Legible (text :: texts) := by
  refine ⟨List.forall_mem_cons.2 ⟨Or.inl h, hrest.lines⟩, List.isChain_cons.2 ⟨?_, hrest.apart⟩⟩
  rintro next - rfl
  exact absurd h not_onLine_function

lemma function (hnext : ¬['*'] <+: next.toList) (hrest : Legible (next :: texts)) :
    Legible ("function" :: next :: texts) := by
  refine ⟨List.forall_mem_cons.2 ⟨Or.inr rfl, hrest.lines⟩, List.isChain_cons.2 ⟨?_, hrest.apart⟩⟩
  rintro other ⟨rfl⟩ -
  exact hnext

lemma not_blank (h : Legible (text :: texts)) :
    ∃ c cs, text.toList = c :: cs ∧ isBlank c = false := by
  have hfirst : ∃ kind n, Rule.first? text.toList = some (some kind, n) := by
    rcases h.lines text List.mem_cons_self with hline | rfl
    · exact ⟨_, _, hline.first?⟩
    · exact ⟨_, _, first?_functionWord⟩
  obtain ⟨kind, n, hfirst⟩ := hfirst
  cases htext : text.toList with
  | nil =>
    rw [htext] at hfirst
    cases hfirst
  | cons c cs =>
    refine ⟨c, cs, rfl, ?_⟩
    rw [← Bool.not_eq_true]
    intro hc
    rw [htext, Cursor.first?_blank hc] at hfirst
    cases hfirst

/-- The word `function` ends with its line if no star begins the next one. -/
lemma functionStar (h : Legible ("function" :: texts)) :
    Pattern.functionStar.length? ("function".toList ++ linesBehind texts) = none := by
  rw [Option.eq_none_iff_forall_ne_some]
  intro n hn
  obtain ⟨more, hmore, -, hstar⟩ := functionStar_eq_some_iff.1 hn
  rw [List.append_cancel_left_eq] at hmore
  subst hmore
  cases texts with
  | nil => cases hstar
  | cons next texts =>
    obtain ⟨c, cs, hnext, hblank⟩ := h.tail.not_blank
    have hline : linesBehind (next :: texts) = '\n' :: c :: (cs ++ linesBehind texts) := by
      rw [linesBehind, toList_lines_cons, hnext, List.cons_append]
      exact List.cons_ne_nil _ _
    have hrun : runLength isBlank ('\n' :: c :: (cs ++ linesBehind texts)) = 1 := by
      simp [runLength, hblank, show isBlank '\n' = true from rfl]
    rw [hline, hrun] at hstar
    cases hstar
    exact (List.isChain_cons.1 h.apart).1 next rfl rfl ⟨cs, hnext.symm⟩

theorem scansBack (h : Legible texts) : ScansBack texts := by
  induction texts with
  | nil => exact scansBack_nil
  | cons text texts ih =>
    refine (ih h.tail).cons ?_
    rcases h.lines text List.mem_cons_self with hline | rfl
    · exact hline _ (endsLine_linesBehind texts)
    · rw [kindOf_function]
      exact first?_append_of_lexeme first?_functionWord (by decide) (endsLine_linesBehind texts)
        fun _ => h.functionStar

end Legible

lemma OnLines.legible_append {texts others : List String} (h : OnLines texts)
    (hothers : Legible others) : Legible (texts ++ others) := by
  induction h with
  | nil => exact hothers
  | cons htext _ ih => exact .cons htext ih
  | function hname _ ih =>
    refine .function ?_ ih
    obtain ⟨c, cs, hc, hstart⟩ := (isWord_of_isToken hname (Or.inl rfl)).1.exists_cons
    rw [hc]
    rintro ⟨tail, htail⟩
    cases htail
    cases hstart

/-- A token that is neither a regular expression nor the word `function` is read back from a
line. -/
theorem onLine_of_lexeme {kind : Kind} {text : String} (h : IsToken kind text)
    (hregex : kind ≠ .regex) (hword : kind ≠ .kwFunction) : kindOf text = kind ∧ OnLine text := by
  have hfirst := first?_eq_of_isToken h
  have hkind := kindOf_of_first? hfirst
  refine ⟨hkind, fun rest hrest => ?_⟩
  rw [hkind]
  refine first?_append_of_lexeme hfirst
    (fun hcomment => hregex (kind_of_slash_star hfirst hcomment)) hrest fun hfunction => ?_
  rw [String.toList_injective hfunction] at hkind
  exact absurd (hkind.symm.trans kindOf_function) hword

namespace Cursor

/-- The text of a token is by itself that token. -/
theorem first?_text_of_mem_scan (cursor : Cursor) : ∀ token ∈ cursor.scan.1,
    Rule.first? token.text.toList = some (some token.kind, token.text.toList.length) := by
  fun_induction scan cursor with
  | case1 => exact List.forall_mem_nil _
  | case2 => exact List.forall_mem_nil _
  | case3 cursor token after h hkind hlt ih =>
    refine List.forall_mem_cons.2 ⟨?_, ih⟩
    obtain ⟨gap, start, -, -, -, hmeets⟩ := cursor.next_meets
    rw [h] at hmeets
    cases hmeets with
    | done => exact absurd rfl hkind
    | @lexeme kind n hrule hrest =>
      have hlength : (start.rest.take n).length = n :=
        List.length_take_of_le (Rule.le_length_of_first? hrule)
      simp only [Cursor.token, String.toList_ofList]
      apply first?_of_append (u := start.rest.drop n)
      rw [List.take_append_drop, hlength, hrule]

end Cursor

/-- A source is read to its end, where the end token stands, or not at all. -/
lemma tokenize_eq_ok_iff {source : String} {ts : List Token} :
    tokenize source = .ok ts ↔ ∃ offset, (scanSource source).2 = .ok (.endOfFile offset) ∧
      ts = (scanSource source).1 ++ [.endOfFile offset] := by
  rw [tokenize_eq_scan]
  rcases (Cursor.ofSource source).scan_stops with ⟨offset, hstop⟩ | ⟨c, span, hstop⟩
  · have hend : (scanSource source).2 = .ok (.endOfFile offset) := hstop
    rw [hend]
    constructor
    · rintro ⟨rfl⟩
      exact ⟨offset, rfl, rfl⟩
    · rintro ⟨other, hother, rfl⟩
      rw [← Except.ok.inj hother]
      rfl
  · have hend : (scanSource source).2 = .error (.unsupportedCharacter c span) := hstop
    rw [hend]
    constructor
    · rintro ⟨⟩
    · rintro ⟨other, ⟨⟩, -⟩

/-- The texts of a source's tokens on lines of their own are read as the same tokens, if no text
opens a comment and no star follows the word `function`. -/
theorem tokenize_texts {source : String} {ts : List Token} (h : tokenize source = .ok ts)
    (hregex : ∀ t ∈ ts, t.kind = .regex → ¬['/', '*'] <+: t.text.toList)
    (hfunction : ts.IsChain fun a b => a.kind = .kwFunction → ¬['*'] <+: b.text.toList) :
    ∃ ts', tokenize ("\n".intercalate ((ts.filter (·.kind ≠ .endOfFile)).map Token.text)) = .ok ts' ∧
      ts'.map Token.lexeme = ts.map Token.lexeme := by
  obtain ⟨offset, -, rfl⟩ := tokenize_eq_ok_iff.1 h
  have hfirst : ∀ token ∈ (scanSource source).1,
      Rule.first? token.text.toList = some (some token.kind, token.text.toList.length) :=
    Cursor.first?_text_of_mem_scan _
  generalize (scanSource source).1 = tokens at hregex hfunction hfirst
  have hkind : ∀ token ∈ tokens, kindOf token.text = token.kind :=
    fun token htoken => kindOf_of_first? (hfirst token htoken)
  have hfilter : (tokens ++ [Token.endOfFile offset]).filter (·.kind ≠ .endOfFile) = tokens := by
    have hne : ∀ token ∈ tokens, token.kind ≠ .endOfFile :=
      fun token htoken => Rule.kind_ne_endOfFile_of_first? (hfirst token htoken)
    simpa [List.filter_append, Token.endOfFile, List.filter_eq_self] using hne
  have hlines : ∀ text ∈ tokens.map Token.text, OnLine text ∨ text = "function" := by
    intro text htext
    obtain ⟨token, htoken, rfl⟩ := List.mem_map.1 htext
    refine or_iff_not_imp_right.2 fun hword rest hrest => ?_
    rw [hkind token htoken]
    refine first?_append_of_lexeme (hfirst token htoken) (fun hcomment => ?_) hrest
      fun hfunction => absurd (String.toList_injective hfunction) hword
    exact hregex token (List.mem_append_left _ htoken)
      (kind_of_slash_star (hfirst token htoken) hcomment) hcomment
  have hchain : (tokens.map Token.text).IsChain ApartFromStar := by
    rw [List.isChain_map]
    refine hfunction.left_of_append.imp_of_mem_imp fun a b ha hb hab hword => hab ?_
    rw [← hkind a ha, hword]
    exact kindOf_function
  obtain ⟨hlexemes, last, hlast⟩ := (Legible.mk hlines hchain).scansBack 0
  obtain ⟨width, hwidth⟩ : ∃ width, last = .endOfFile width := by
    rcases Cursor.scan_stops ⟨0, ("\n".intercalate (tokens.map Token.text)).toList⟩ with
      ⟨width, hstop⟩ | ⟨c, span, hstop⟩
    · exact ⟨width, Except.ok.inj (hlast.symm.trans hstop)⟩
    · cases hlast.symm.trans hstop
  subst hwidth
  rw [hfilter]
  refine ⟨_, tokenize_eq_ok_iff.2 ⟨width, hlast, rfl⟩, ?_⟩
  have hsame : (tokens.map Token.text).map lexemeOf = tokens.map Token.lexeme := by
    rw [List.map_map]
    exact List.map_congr_left fun token htoken => by simp [lexemeOf, Token.lexeme, hkind token htoken]
  rw [List.map_append, List.map_append, ← hsame, ← hlexemes]
  rfl

/-- A word with a dollar sign close behind it, a regular expression with a comment behind it, and
quotes inside a quoted text are read back. -/
theorem rescan_around_regex :
    ∃ ts, ts = [⟨.kwFunction, "function", ⟨0, 8⟩⟩, ⟨.identifier, "$", ⟨8, 9⟩⟩,
        ⟨.assignment, "=", ⟨9, 10⟩⟩, ⟨.regex, "/=/g", ⟨10, 14⟩⟩, ⟨.multiplicative, "*", ⟨14, 15⟩⟩,
        ⟨.number, "1.5", ⟨19, 22⟩⟩, ⟨.identifier, "ex", ⟨22, 24⟩⟩, ⟨.additive, "+", ⟨24, 25⟩⟩,
        ⟨.string, "'a'b'", ⟨25, 30⟩⟩, ⟨.endOfFile, "", ⟨30, 30⟩⟩] ∧
      tokenize "function$=/=/g*/**/1.5ex+'a'b'" = .ok ts ∧
      (∀ t ∈ ts, t.kind = .regex → ¬['/', '*'] <+: t.text.toList) ∧
      (ts.IsChain fun a b => a.kind = .kwFunction → ¬['*'] <+: b.text.toList) ∧
      ∃ ts', tokenize "function\n$\n=\n/=/g\n*\n1.5\nex\n+\n'a'b'" = .ok ts' ∧
        ts'.map Token.lexeme = ts.map Token.lexeme := by
  let ts : List Token := [⟨.kwFunction, "function", ⟨0, 8⟩⟩, ⟨.identifier, "$", ⟨8, 9⟩⟩,
    ⟨.assignment, "=", ⟨9, 10⟩⟩, ⟨.regex, "/=/g", ⟨10, 14⟩⟩, ⟨.multiplicative, "*", ⟨14, 15⟩⟩,
    ⟨.number, "1.5", ⟨19, 22⟩⟩, ⟨.identifier, "ex", ⟨22, 24⟩⟩, ⟨.additive, "+", ⟨24, 25⟩⟩,
    ⟨.string, "'a'b'", ⟨25, 30⟩⟩, ⟨.endOfFile, "", ⟨30, 30⟩⟩]
  have h : tokenize "function$=/=/g*/**/1.5ex+'a'b'" = .ok ts := by decide +kernel
  have hregex : ∀ t ∈ ts, t.kind = .regex → ¬['/', '*'] <+: t.text.toList := by decide +kernel
  have hfunction : ts.IsChain fun a b => a.kind = .kwFunction → ¬['*'] <+: b.text.toList := by
    decide +kernel
  have htexts : "\n".intercalate ((ts.filter (·.kind ≠ .endOfFile)).map Token.text) =
      "function\n$\n=\n/=/g\n*\n1.5\nex\n+\n'a'b'" := by
    decide +kernel
  have hread := tokenize_texts h hregex hfunction
  rw [htexts] at hread
  exact ⟨ts, rfl, h, hregex, hfunction, hread⟩

end ScriptTree
