import ScriptTree.Proofs.Channels
import ScriptTree.Proofs.Rescan

/-!
# Lines of a listing

A listing writes a token on a line of its own, with its text as it stands in the source. What is
read by a rule that stays on its line has no line feed, and that is every token but one: between
the word `function` and the star behind it there may be blanks of any kind. So a listing has one
line for each token exactly if no such pair is broken over lines.

Main statement: `lines_of_listing`.
-/

namespace ScriptTree

/-- A pattern that reads the same at the end of a line as of a text reads no line feed. -/
lemma Pattern.lineFeed_notMem_take {p : Pattern} {cs : List Char} {n : Nat}
    (hends : ∀ t, p.EndsWith t) (hwithin : p.Within) (h : p.length? cs = some n) :
    '\n' ∉ cs.take n := by
  have hsplit : cs.takeWhile (· != '\n') ++ cs.dropWhile (· != '\n') = cs :=
    List.takeWhile_append_dropWhile
  have hrest : EndsLine (cs.dropWhile (· != '\n')) := by
    rcases head?_dropWhile_ne '\n' cs with hnone | hsome
    · exact .inl (List.head?_eq_none_iff.1 hnone)
    · exact .inr (List.head?_eq_some_iff.1 hsome)
  have hline : '\n' ∉ cs.takeWhile (· != '\n') := fun hmem => by
    simpa using List.mem_takeWhile_imp hmem
  generalize cs.takeWhile (· != '\n') = line at hsplit hline
  generalize cs.dropWhile (· != '\n') = rest at hsplit hrest
  subst hsplit
  rw [hends line rest hrest] at h
  rw [List.take_append_of_le_length (hwithin line n h)]
  exact fun hmem => hline (List.mem_of_mem_take hmem)

/-- Of the rules that make tokens only the one for `function*` goes on to another line. -/
lemma Rule.endsWith_lexical : ∀ rule ∈ Rule.lexical, rule.kind? ≠ some .kwFunctionStar →
    ∀ t, rule.pattern.EndsWith t := by
  intro rule hrule hkind t
  simp only [Rule.lexical, List.mem_append, List.mem_singleton] at hrule
  rcases hrule with hrule | hrule | hrule | hrule | rfl
  · exact endsWith_literals rule hrule
  · exact endsWith_punctuation rule hrule
  · exact endsWith_operators rule hrule
  · have hwords : ∀ rule ∈ Rule.words, rule.kind? ≠ some .kwFunctionStar →
        rule.pattern.EndsWith t := by
      simp only [Rule.words, Rule.make, List.forall_mem_cons]
      and_intros
      all_goals first
        | exact fun _ => endsWith_wholeWord (by decide)
        | exact fun hother => absurd rfl hother
        | exact List.forall_mem_nil _
    exact hwords rule hrule hkind
  · exact endsWith_identifier

/-- No token but `function*` has a line feed in its text. -/
lemma lineFeed_notMem_text {source : String} {tokens : List Token}
    (h : tokenize source = .ok tokens) :
    ∀ token ∈ tokens, token.kind ≠ .kwFunctionStar → '\n' ∉ token.text.toList := by
  obtain ⟨offset, -, rfl⟩ := tokenize_eq_ok_iff.1 h
  intro token htoken hkind
  rcases List.mem_append.1 htoken with hscan | hend
  · have hfirst := Cursor.first?_text_of_mem_scan _ token hscan
    obtain ⟨rule, hmem, hrule, hlength⟩ := Rule.exists_of_first? hfirst
    have hlexical : rule ∈ Rule.lexical := by
      rw [Rule.table_eq, List.mem_append] at hmem
      rcases hmem with hblank | hlexical
      · simp only [Rule.blanks, Rule.skip, List.mem_cons, List.not_mem_nil, or_false] at hblank
        rcases hblank with rfl | rfl | rfl <;> cases hrule
      · exact hlexical
    have hends := Rule.endsWith_lexical rule hlexical (by simpa [hrule] using hkind)
    have htake := Pattern.lineFeed_notMem_take hends (Rule.within_table rule hmem) hlength
    rwa [List.take_length] at htake
  · rw [List.mem_singleton.1 hend]
    exact List.not_mem_nil

/-- The line of a token without the line feed that ends it. -/
def Token.row (token : Token) : List Char :=
  token.kind.tag.toList ++ '\t' :: token.text.toList

lemma toList_listed (tokens : List Token) :
    (listed tokens).toList = (tokens.map Token.row).flatMap (· ++ ['\n']) := by
  simp [listed, String.toList_join, List.flatMap_map, Token.row]

lemma Token.lineFeed_mem_row (token : Token) : '\n' ∈ token.row ↔ '\n' ∈ token.text.toList := by
  have htag : '\n' ∉ token.kind.tag.toList := by
    cases token.kind <;> decide
  simp [Token.row, htag]

section Rows

variable {rows : List (List Char)}

/-- Rows with a line feed behind each are split into the lines of each row, and nothing is behind
the last line feed. -/
lemma splitOn_rows (rows : List (List Char)) :
    (rows.flatMap (· ++ ['\n'])).splitOn '\n' = rows.flatMap (·.splitOn '\n') ++ [[]] := by
  induction rows with
  | nil => rfl
  | cons row rows ih =>
    rw [List.flatMap_cons, List.append_assoc, List.singleton_append, List.splitOn_append_cons_self,
      ih, List.flatMap_cons, List.append_assoc]

lemma splitOn_eq_self_iff {row : List Char} : row.splitOn '\n' = [row] ↔ '\n' ∉ row := by
  refine ⟨fun hone hmem => ?_, List.splitOn_eq_singleton⟩
  obtain ⟨before, behind, rfl⟩ := List.append_of_mem hmem
  have hlength := congrArg List.length hone
  rw [List.splitOn_append_cons_self, List.length_append, List.length_singleton] at hlength
  have hbefore := List.length_pos_iff.2 (List.splitOn_ne_nil '\n' before)
  have hbehind := List.length_pos_iff.2 (List.splitOn_ne_nil '\n' behind)
  omega

lemma length_le_flatMap_splitOn (rows : List (List Char)) :
    rows.length ≤ (rows.flatMap (·.splitOn '\n')).length := by
  induction rows with
  | nil => exact Nat.le_refl 0
  | cons row rows ih =>
    have hrow := List.length_pos_iff.2 (List.splitOn_ne_nil '\n' row)
    rw [List.flatMap_cons, List.length_append, List.length_cons]
    omega

/-- The lines are the rows exactly if no row goes on to another line. -/
lemma flatMap_splitOn_eq_iff :
    rows.flatMap (·.splitOn '\n') = rows ↔ ∀ row ∈ rows, '\n' ∉ row := by
  induction rows with
  | nil => simp
  | cons row rows ih =>
    rw [List.flatMap_cons, List.forall_mem_cons, ← splitOn_eq_self_iff, ← ih]
    refine ⟨fun heq => ?_, fun ⟨hrow, hrows⟩ => by rw [hrow, hrows]; rfl⟩
    have hlength := congrArg List.length heq
    rw [List.length_append, List.length_cons] at hlength
    have hfirst := List.length_pos_iff.2 (List.splitOn_ne_nil '\n' row)
    have hothers := length_le_flatMap_splitOn rows
    have hone : (row.splitOn '\n').length = 1 := by omega
    obtain ⟨line, hline⟩ := List.length_eq_one_iff.1 hone
    rw [hline] at heq ⊢
    obtain ⟨rfl, hrows⟩ := List.cons.inj heq
    exact ⟨rfl, hrows⟩

end Rows

/-- Every run that lists the tokens of a text writes one output. Its lines are those of the tokens
one behind the other, and a token other than `function*` takes one. So there is one line for each
token, with its kind, a tab and its text, exactly if no line feed stands between the word `function`
and its star. -/
theorem lines_of_listing {text : String} {tokens : List Token} (h : tokenize text = .ok tokens) :
    ∃ output : String,
      (∀ {m : Type → Type} [Monad m] [LawfulMonad m] (host : Host m) args before behind,
        readArguments args = .ok (.run .tokens before behind) →
        Delivers host text behind.code? behind.file? →
        ∃ errors, execute host args = pure ⟨0, output, errors⟩) ∧
      output.toList.splitOn '\n' = tokens.flatMap (·.row.splitOn '\n') ++ [[]] ∧
      (∀ token ∈ tokens, token.kind ≠ .kwFunctionStar → token.row.splitOn '\n' = [token.row]) ∧
      (output.toList.splitOn '\n' = tokens.map Token.row ++ [[]] ↔
        ∀ token ∈ tokens, token.kind = .kwFunctionStar → '\n' ∉ token.text.toList) := by
  have hlines : (listed tokens).toList.splitOn '\n' =
      tokens.flatMap (·.row.splitOn '\n') ++ [[]] := by
    rw [toList_listed, splitOn_rows, List.flatMap_map]
  have hrun : ∀ options, Command.tokens.run options ⟨"", text⟩ = .success (listed tokens) := by
    intro options
    rw [Command.run, runTokens, h]
    rfl
  have hone := lineFeed_notMem_text h
  refine ⟨_, fun host args before behind hargs hdelivers => ?_, hlines, ?_, ?_⟩
  · obtain ⟨errors, hexecute⟩ :=
      execute_of_delivers (by decide) hargs ⟨rfl, rfl⟩ ⟨rfl, rfl⟩ hdelivers ""
    rw [hrun] at hexecute
    exact ⟨errors, hexecute⟩
  · intro token htoken hkind
    rw [splitOn_eq_self_iff, token.lineFeed_mem_row]
    exact hone token htoken hkind
  · rw [hlines, List.append_cancel_right_eq, ← List.flatMap_map, flatMap_splitOn_eq_iff,
      List.forall_mem_map]
    refine forall₂_congr fun token htoken => ?_
    rw [token.lineFeed_mem_row]
    exact ⟨fun hfree _ => hfree, fun hstar hmem =>
      hone token htoken (fun hkind => hstar hkind hmem) hmem⟩

/-- A pair on one line takes one line like every other token. -/
theorem lines_of_paired_listing :
    tokenize "function *g" = .ok [⟨.kwFunctionStar, "function *", .ofOffsets 0 10⟩,
      ⟨.identifier, "g", .ofOffsets 10 11⟩, ⟨.endOfFile, "", .ofOffsets 11 11⟩] ∧
    ∃ output errors, execute (.table [] "") ["tokens", "-e", "function *g"] = ⟨0, output, errors⟩ ∧
      output.toList.splitOn '\n' =
        ["FunctionStar\tfunction *".toList, "Identifier\tg".toList, "EndOfFile\t".toList, []] := by
  have htokens : tokenize "function *g" = .ok [⟨.kwFunctionStar, "function *", .ofOffsets 0 10⟩,
      ⟨.identifier, "g", .ofOffsets 10 11⟩, ⟨.endOfFile, "", .ofOffsets 11 11⟩] := by
    decide +kernel
  obtain ⟨output, hruns, -, -, hiff⟩ := lines_of_listing htokens
  obtain ⟨errors, hrun⟩ := hruns (.table [] "") ["tokens", "-e", "function *g"] {}
    { code? := some "function *g" } rfl (.code none)
  exact ⟨htokens, output, errors, hrun, hiff.2 (by decide)⟩

/-- The two tokens of a text with a pair broken over lines take three lines. -/
theorem listing_of_broken_pair :
    tokenize "function\n*" = .ok [⟨.kwFunctionStar, "function\n*", .ofOffsets 0 10⟩,
      ⟨.endOfFile, "", .ofOffsets 10 10⟩] ∧
    (execute (.table [] "") ["tokens", "-e", "function\n*"]).exitCode = 0 ∧
    (execute (.table [] "") ["tokens", "-e", "function\n*"]).output.toList.splitOn '\n' =
      ["FunctionStar\tfunction".toList, "*".toList, "EndOfFile\t".toList, []] := by
  decide +kernel

end ScriptTree
