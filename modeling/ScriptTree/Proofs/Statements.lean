import ScriptTree.Proofs.Progress
import ScriptTree.Proofs.Texts
import ScriptTree.Proofs.Writing

/-!
# Statements are read back

What is written by `Writes` is read back as the statements that were written, whichever semicolons
are left out. A statement is read in front of anything that may stand behind it, `Behind`: another
statement, a closing brace, the end of the source or, if no `if` is open, an `else`.

Main statement: `parse_of_writes`.
-/

namespace ScriptTree

open ScriptTree.Parser

/-- What may stand behind a statement with given lexemes. -/
structure Behind (openIf : Bool) (ts : List String) (rest : List (Kind × String)) : Prop where
  follows : (headKind rest).followsStatement = true
  noElse : openIf = true → headKind rest ≠ .kwElse
  argument : EndsInReturn ts → (headKind rest).endsArgument = true

/-- There are levels of the grammar and of nesting left for the lexemes of a statement, and a
`return` may stand here if there is one. -/
structure Room (f : Bool) (n : Nat) (c : Context) (size : Nat) : Prop where
  levels : size ≤ n
  depth : c.depth + size ≤ c.limit
  inside : f = true → c.inFunction = true

/-- A statement is read wherever its lexemes stand. -/
structure StatementReads (f openIf : Bool) (e : Node) (ts : List String) : Prop where
  starts : ∃ text us, ts = text :: us ∧ (kindOf text).startsStatement = true
  takes : ∀ n c rest, Room f n { c with depth := c.depth + 1 } ts.length →
    Behind openIf ts rest → Takes (Grammar.upTo n).statement c (lexemesBefore ts rest) e rest

/-- The statements of a row are read one after the other. -/
inductive RowReads (f : Bool) : List Node → List String → Prop where
  | nil : RowReads f [] []
  | cons {openIf : Bool} {e : Node} {es : List Node} {ts us : List String}
      (h : StatementReads f openIf e ts) (hrow : RowReads f es us)
      (hreturn : us ≠ [] → ¬EndsInReturn ts) : RowReads f (e :: es) (ts ++ us)

/-- How what is written down is read. -/
def Script.Reads (f : Bool) (ts : List String) : Script → Prop
  | statement openIf e => StatementReads f openIf e ts
  | row es => RowReads f es ts
  | block e => (∃ us, ts = "\x7b" :: us) ∧ ∀ n c rest, Room f n c ts.length →
      Takes (Grammar.upTo n).block c (lexemesBefore ts rest) e rest
  | loopBody openIf e => 0 < ts.length ∧ ∀ n c rest, Room f n c (ts.length + 1) →
      Behind openIf ts rest → Takes (Grammar.upTo n).loopBody c (lexemesBefore ts rest) e rest
  | handler e? => ∀ n c rest, Room f n c ts.length → headKind rest ≠ .kwCatch →
      Takes (optionally .kwCatch (Grammar.upTo n).catchClause) c (lexemesBefore ts rest) e? rest
  | finalizer e? => (ts = [] ∨ ∃ us, ts = "finally" :: us) ∧
      ∀ n c rest, Room f n c ts.length → headKind rest ≠ .kwFinally →
        Takes (optionally .kwFinally (Grammar.upTo n).block) c (lexemesBefore ts rest) e? rest

namespace Behind

variable {openIf : Bool} {ts us : List String} {rest : List (Kind × String)}

/-- What may stand behind a statement may stand behind another one at its end. -/
lemma tail (ts : List String) (h : Behind openIf (ts ++ us) rest) (hne : 0 < us.length) :
    Behind openIf us rest := by
  refine ⟨h.follows, h.noElse, fun hreturn => h.argument ?_⟩
  unfold EndsInReturn at hreturn ⊢
  rw [List.getLast?_append_of_ne_nil _ (List.ne_nil_of_length_pos hne), hreturn]

lemma of_starts (hrest : (headKind rest).startsStatement = true) (hreturn : ¬EndsInReturn ts) :
    Behind openIf ts rest :=
  ⟨(Kind.followsStatement_of_starts hrest).1, fun _ => (Kind.followsStatement_of_starts hrest).2.1,
    fun h => absurd h hreturn⟩

end Behind

namespace StatementReads

variable {f openIf : Bool} {e : Node} {ts : List String} {n : Nat} {c : Context}
  {rest : List (Kind × String)}

lemma head (h : StatementReads f openIf e ts) (rest : List (Kind × String)) :
    (headKind (lexemesBefore ts rest)).startsStatement = true := by
  obtain ⟨text, us, rfl, hstarts⟩ := h.starts
  exact hstarts

lemma length_pos (h : StatementReads f openIf e ts) : 0 < ts.length := by
  obtain ⟨text, us, rfl, -⟩ := h.starts
  exact Nat.zero_lt_succ _

/-- A statement inside another one. -/
lemma inner (h : StatementReads f openIf e ts) (hlevels : ts.length < n)
    (hdepth : c.depth + ts.length < c.limit) (hinside : f = true → c.inFunction = true)
    (hbehind : Behind openIf ts rest) :
    Takes (Grammar.upTo n).innerStatement c (lexemesBefore ts rest) e rest := by
  obtain ⟨n, rfl⟩ : ∃ d, n = d + 1 := ⟨n - 1, by omega⟩
  have hhead := Kind.followsStatement_of_starts (h.head rest)
  refine Takes.sees_neg hhead.2.2.2 (h.takes n c rest ⟨by omega, ?_, hinside⟩ hbehind)
  change c.depth + 1 + ts.length ≤ c.limit
  omega

end StatementReads

namespace RowReads

variable {f : Bool} {es : List Node} {ts : List String}

lemma head (h : RowReads f es ts) (hne : ts ≠ []) (rest : List (Kind × String)) :
    (headKind (lexemesBefore ts rest)).startsStatement = true := by
  cases h with
  | nil => exact absurd rfl hne
  | cons h _ _ =>
    rw [lexemesBefore_append]
    exact h.head _

/-- A loop that reads statements until something ends it reads the statements of a row. -/
lemma loop_takes {α : Type} (h : RowReads f es ts) {turn : List Node → Parser (Turn (List Node) α)}
    {n : Nat} {c : Context} {rest : List (Kind × String)} (result : List Node → α)
    (hdepth : c.depth + ts.length < c.limit) (hinside : f = true → c.inFunction = true)
    (hlevels : ts.length ≤ n)
    (hrest : headKind rest = .rBrace ∨ headKind rest = .endOfFile)
    (hagain : ∀ read e ls mid, (headKind ls).startsStatement = true →
      Takes (Grammar.upTo n).statement c ls e mid → Takes (turn read) c ls (.again (e :: read)) mid)
    (hdone : ∀ read, Takes (turn read) c rest (.done (result read.reverse)) rest)
    (read : List Node) (b : Nat) (hb : ts.length < b) :
    Takes (loop turn b read) c (lexemesBefore ts rest) (result (read.reverse ++ es)) rest := by
  obtain ⟨b, rfl⟩ : ∃ d, b = d + 1 := ⟨b - 1, by omega⟩
  induction h generalizing read b with
  | nil =>
    rw [List.append_nil]
    exact Takes.loop_done (hdone read)
  | @cons openIf e es ts us h hrow hreturn ih =>
    rw [List.length_append] at hdepth hlevels hb
    have hpos := h.length_pos
    have hbehind : Behind openIf ts (lexemesBefore us rest) := by
      by_cases hne : us = []
      · subst hne
        refine ⟨?_, fun _ => ?_, fun _ => ?_⟩ <;>
          rcases hrest with hrest | hrest <;> rw [lexemesBefore_nil, hrest] <;> decide
      · exact .of_starts (hrow.head hne rest) (hreturn hne)
    have hroom : Room f n { c with depth := c.depth + 1 } ts.length :=
      ⟨by omega, by change c.depth + 1 + ts.length ≤ c.limit; omega, hinside⟩
    have hturn := hagain read e (lexemesBefore ts (lexemesBefore us rest)) (lexemesBefore us rest)
      (h.head _) (h.takes n c _ hroom hbehind)
    obtain ⟨b, rfl⟩ : ∃ d, b = d + 1 := ⟨b - 1, by omega⟩
    have hloop := ih (by omega) (by omega) (e :: read) b (by omega)
    rw [List.reverse_cons, List.append_assoc] at hloop
    rw [lexemesBefore_append]
    exact Takes.loop_again hturn hloop

/-- The statements of a block with the braces around them. -/
lemma block_takes (h : RowReads f es ts) {n : Nat} {c : Context}
    (hroom : Room f n c (ts.length + 2)) (rest : List (Kind × String)) :
    Takes (Grammar.upTo n).block c (lexemesBefore ("\x7b" :: (ts ++ ["\x7d"])) rest)
      (.blockStatement es) rest := by
  have hlevels := hroom.levels
  have hdepth := hroom.depth
  obtain ⟨n, rfl⟩ : ∃ d, n = d + 1 := ⟨n - 1, by omega⟩
  have hbrace : headKind (lexemesBefore ["\x7d"] rest) = .rBrace := kindOf_rBrace
  have hloop : Takes (loop (Grammar.upTo (n + 1)).nextInBlock (n + 1) []) c
      (lexemesBefore ts (lexemesBefore ["\x7d"] rest)) es (lexemesBefore ["\x7d"] rest) := by
    refine h.loop_takes (n := n) id (by omega) hroom.inside (by omega) (Or.inl hbrace) ?_
      (fun read => Takes.sees_pos hbrace (Takes.pure _)) [] (n + 1) (by omega)
    intro read e ls mid hls hstatement
    have hhead := Kind.followsStatement_of_starts hls
    refine Takes.sees_neg hhead.2.2.1 ?_
    refine Takes.sees_neg hhead.2.2.2 ?_
    exact hstatement.bind (Takes.pure _)
  rw [lexemesBefore_cons, lexemesBefore_append]
  refine Takes.expect_mark kindOf_lBrace ?_
  refine hloop.bind ?_
  exact Takes.expect_mark kindOf_rBrace (Takes.pure _)

/-- The statements of a program. -/
lemma program_takes (h : RowReads f es ts) {n limit : Nat} (hf : f = false)
    (hlevels : ts.length ≤ n) (hlimit : ts.length < limit) :
    Takes (Grammar.upTo (n + 1)).program ⟨limit, 0, false⟩ (lexemesBefore ts []) (.program es)
      [] := by
  refine h.loop_takes (n := n) Node.program (by simpa using hlimit) (by simp [hf]) hlevels
    (Or.inr rfl) ?_ (fun read => Takes.sees_pos rfl (Takes.pure _)) [] (n + 1) (by omega)
  intro read e ls mid hls hstatement
  have hhead := Kind.followsStatement_of_starts hls
  exact Takes.sees_neg hhead.2.2.2 (hstatement.bind (Takes.pure _))

end RowReads

/-! ### Single statements -/

namespace StatementReads

variable {f openIf : Bool} {e : Node} {ts us : List String}

/-- It is enough to read a statement on its level of nesting. -/
lemma of_kind {text : String} {us : List String} {kind : Kind} (hkind : kindOf text = kind)
    (hstarts : kind.startsStatement = true)
    (h : ∀ n c rest, Room f n c (us.length + 1) → Behind openIf (text :: us) rest →
      Takes (Grammar.upTo n).statementKind c ((kind, text) :: lexemesBefore us rest) e rest) :
    StatementReads f openIf e (text :: us) := by
  subst hkind
  refine ⟨⟨text, us, rfl, hstarts⟩, fun n c rest hroom hbehind => ?_⟩
  have hdepth : c.depth + 1 + (us.length + 1) ≤ c.limit := hroom.depth
  exact Takes.nested (by omega) (h n _ rest hroom hbehind)

lemma expression (h : WritesName e ts) (hend : WritesEnd us) :
    StatementReads f false e (ts ++ us) := by
  cases h with
  | @name name h =>
    refine .of_kind (onLine_of_name h).1 rfl fun n c rest hroom hbehind => ?_
    have hlevels := hroom.levels
    have hdepth := hroom.depth
    have hname := (WritesName.name h).sequence (n := n) (c := c) (by omega) (by omega)
      (lexemesBefore us rest) (hend.grip? hbehind.follows)
    rw [lexemesBefore_cons, lexemesBefore_nil, (onLine_of_name h).1] at hname
    refine Takes.lookahead_bind fun t ht => ?_
    rw [ht]
    exact hname.bind (hend.accept hbehind.follows (Takes.pure _))

lemma declaration (h : WritesDeclaration e ts) (hend : WritesEnd us) :
    StatementReads f false e (ts ++ us) := by
  cases h with
  | @declaration kind id value ts vs hid hvalue =>
    rw [List.cons_append]
    refine .of_kind (kindOf_keyword kind) rfl fun n c rest hroom hbehind => ?_
    have hlevels := hroom.levels
    have hdepth := hroom.depth
    simp only [List.length_append, hid.length] at hlevels hdepth
    have hvariable : WritesDeclaration (.variableDeclaration id value kind)
        (kind.text :: (ts ++ vs)) := .declaration hid hvalue
    have htakes := hvariable.takes (n := n) (c := c) (by omega) (by omega)
      (hend.grip? hbehind.follows)
    rw [lexemesBefore_cons, kindOf_keyword] at htakes
    rw [lexemesBefore_append]
    refine Takes.lookahead_bind fun t ht => ?_
    rw [ht]
    exact htakes.bind (hend.accept hbehind.follows (Takes.pure _))

lemma breakStatement (hend : WritesEnd us) :
    StatementReads f false .breakStatement ("break" :: us) := by
  refine .of_kind kindOf_break rfl fun n c rest _ hbehind => ?_
  refine Takes.lookahead_bind fun t ht => ?_
  rw [ht]
  exact Takes.advance_bind fun _ _ => hend.accept hbehind.follows (Takes.pure _)

lemma continueStatement (hend : WritesEnd us) :
    StatementReads f false .continueStatement ("continue" :: us) := by
  refine .of_kind kindOf_continue rfl fun n c rest _ hbehind => ?_
  refine Takes.lookahead_bind fun t ht => ?_
  rw [ht]
  exact Takes.advance_bind fun _ _ => hend.accept hbehind.follows (Takes.pure _)

lemma throwStatement (h : WritesName e ts) (hend : WritesEnd us) :
    StatementReads f false (.throwStatement e) ("throw" :: (ts ++ us)) := by
  refine .of_kind kindOf_throw rfl fun n c rest hroom hbehind => ?_
  have hlevels := hroom.levels
  have hdepth := hroom.depth
  rw [List.length_append, h.length] at hlevels hdepth
  obtain ⟨n, rfl⟩ : ∃ d, n = d + 1 := ⟨n - 1, by omega⟩
  have hname := h.sequence (n := n) (c := c) (by omega) (by omega) (lexemesBefore us rest)
    (hend.grip? hbehind.follows)
  rw [lexemesBefore_append]
  refine Takes.lookahead_bind fun t ht => ?_
  rw [ht]
  refine Takes.expect_skip (hname.bind ?_)
  exact hend.accept hbehind.follows (Takes.pure _)

/-- What stands behind the word `return` shows whether there is an argument. -/
lemma returnStatement {e? : Option Node} (h : WritesPerhaps WritesName e? ts)
    (hend : WritesEnd us) :
    StatementReads true false (.returnStatement e?) ("return" :: (ts ++ us)) := by
  refine .of_kind kindOf_return rfl fun n c rest hroom hbehind => ?_
  have hlevels := hroom.levels
  have hdepth := hroom.depth
  have hargument : Takes (Grammar.upTo n).returnArgument c (lexemesBefore (ts ++ us) rest) e?
      (lexemesBefore us rest) := by
    rw [lexemesBefore_append]
    cases h with
    | absent =>
      have hends : (headKind (lexemesBefore us rest)).endsArgument = true := by
        cases hend with
        | absent => exact hbehind.argument rfl
        | present =>
          rw [lexemesBefore_cons, headKind_cons, kindOf_semicolon]
          rfl
      refine Takes.lookahead_bind fun t ht => ?_
      rw [ht, lexemesBefore_nil, if_pos hends]
      exact Takes.pure _
    | present h =>
      rw [List.length_append, h.length] at hlevels hdepth
      obtain ⟨n, rfl⟩ : ∃ d, n = d + 1 := ⟨n - 1, by omega⟩
      refine Takes.lookahead_bind fun t ht => ?_
      rw [ht, h.headKind, if_neg (by decide)]
      exact (h.sequence (n := n) (by omega) (by omega) _ (hend.grip? hbehind.follows)).map some
  have hreturn : Takes (Grammar.upTo n).returnStatement c
      ((.kwReturn, "return") :: lexemesBefore (ts ++ us) rest) (.returnStatement e?) rest := by
    intro r hr
    have hbody : Takes (expect .kwReturn >>= fun _ => do
        let argument ← (Grammar.upTo n).returnArgument
        let _ ← accept .semicolon
        pure (Node.returnStatement argument)) c
        ((.kwReturn, "return") :: lexemesBefore (ts ++ us) rest) (.returnStatement e?) rest := by
      refine Takes.expect_skip (hargument.bind ?_)
      exact hend.accept hbehind.follows (Takes.pure _)
    obtain ⟨s, hs, hrest⟩ := hbody r hr
    refine ⟨s, bind_eq_ok.2 ⟨c, r, rfl, ?_⟩, hrest⟩
    rw [if_pos (hroom.inside rfl)]
    exact hs
  refine Takes.lookahead_bind fun t ht => ?_
  rw [ht]
  exact hreturn

section Nested

variable {test m : Node} {vs : List String}

lemma ifThen (htest : WritesName test ts) (h : StatementReads f openIf e us) :
    StatementReads f true (.ifStatement test e none) ("if" :: "(" :: (ts ++ ")" :: us)) := by
  refine .of_kind kindOf_if rfl fun n c rest hroom hbehind => ?_
  have hlevels := hroom.levels
  have hdepth := hroom.depth
  have hbehind' : Behind openIf us rest := by
    have htail := Behind.tail ("if" :: "(" :: (ts ++ [")"])) (by simpa using hbehind)
      h.length_pos
    exact ⟨htail.follows, fun _ => htail.noElse rfl, htail.argument⟩
  simp only [List.length_cons, List.length_append, htest.length] at hlevels hdepth
  simp only [lexemesBefore_cons, lexemesBefore_append]
  refine Takes.lookahead_bind fun t ht => ?_
  rw [ht]
  refine Takes.expect_skip ((htest.condition (by omega) (by omega) _).bind ?_)
  refine (h.inner (by omega) (by omega) hroom.inside hbehind').bind ?_
  exact (Takes.optionally_none (hbehind.noElse rfl)).bind (Takes.pure _)

lemma ifElse (htest : WritesName test ts) (h : StatementReads f false e us)
    (hreturn : ¬EndsInReturn us) (helse : StatementReads f openIf m vs) :
    StatementReads f openIf (.ifStatement test e (some m))
      ("if" :: "(" :: (ts ++ ")" :: (us ++ "else" :: vs))) := by
  refine .of_kind kindOf_if rfl fun n c rest hroom hbehind => ?_
  have hlevels := hroom.levels
  have hdepth := hroom.depth
  have hbehind' : Behind openIf vs rest :=
    Behind.tail ("if" :: "(" :: (ts ++ ")" :: (us ++ ["else"]))) (by simpa using hbehind)
      helse.length_pos
  have hbefore : Behind false us ((kindOf "else", "else") :: lexemesBefore vs rest) :=
    ⟨by rw [headKind_cons, kindOf_else]; rfl, nofun,
      fun h => absurd h hreturn⟩
  simp only [List.length_cons, List.length_append, htest.length] at hlevels hdepth
  simp only [lexemesBefore_cons, lexemesBefore_append]
  refine Takes.lookahead_bind fun t ht => ?_
  rw [ht]
  refine Takes.expect_skip ((htest.condition (by omega) (by omega) _).bind ?_)
  refine (h.inner (by omega) (by omega) hroom.inside hbefore).bind ?_
  refine (Takes.optionally_mark kindOf_else ?_).bind (Takes.pure _)
  exact helse.inner (by omega) (by omega) hroom.inside hbehind'

lemma whileStatement (htest : WritesName test ts) (h : StatementReads f openIf e us) :
    StatementReads f openIf (.whileStatement test e) ("while" :: "(" :: (ts ++ ")" :: us)) := by
  refine .of_kind kindOf_while rfl fun n c rest hroom hbehind => ?_
  have hlevels := hroom.levels
  have hdepth := hroom.depth
  have hbehind' : Behind openIf us rest :=
    Behind.tail ("while" :: "(" :: (ts ++ [")"])) (by simpa using hbehind) h.length_pos
  simp only [List.length_cons, List.length_append, htest.length] at hlevels hdepth
  simp only [lexemesBefore_cons, lexemesBefore_append]
  refine Takes.lookahead_bind fun t ht => ?_
  rw [ht]
  refine Takes.expect_skip ((htest.condition (by omega) (by omega) _).bind ?_)
  exact (h.inner (by omega) (by omega) hroom.inside hbehind').bind (Takes.pure _)

lemma doWhileStatement (h : StatementReads f openIf e ts) (hreturn : ¬EndsInReturn ts)
    (htest : WritesName test us) (hend : WritesEnd vs) :
    StatementReads f false (.doWhileStatement e test)
      ("do" :: (ts ++ "while" :: "(" :: (us ++ ")" :: vs))) := by
  refine .of_kind kindOf_do rfl fun n c rest hroom hbehind => ?_
  have hlevels := hroom.levels
  have hdepth := hroom.depth
  have hbefore : Behind openIf ts
      ((kindOf "while", "while") :: lexemesBefore ("(" :: (us ++ ")" :: vs)) rest) :=
    .of_starts (by rw [headKind_cons, kindOf_while]; rfl) hreturn
  simp only [List.length_cons, List.length_append, htest.length] at hlevels hdepth
  simp only [lexemesBefore_cons, lexemesBefore_append] at hbefore ⊢
  refine Takes.lookahead_bind fun t ht => ?_
  rw [ht]
  refine Takes.expect_skip ((h.inner (by omega) (by omega) hroom.inside hbefore).bind ?_)
  refine Takes.expect_mark kindOf_while ((htest.condition (by omega) (by omega) _).bind ?_)
  exact hend.accept hbehind.follows (Takes.pure _)

end Nested

end StatementReads

/-! ### Blocks and what contains them -/

section Blocks

variable {f openIf : Bool} {e : Node} {ts : List String}

lemma StatementReads.block (h : (Script.block e).Reads f ts) : StatementReads f false e ts := by
  obtain ⟨⟨us, rfl⟩, htakes⟩ := h
  have hkind : kindOf "\x7b" = .lBrace := kindOf_lBrace
  refine .of_kind hkind rfl fun n c rest hroom _ => ?_
  have hblock := htakes n c rest hroom
  rw [lexemesBefore_cons, hkind] at hblock
  refine Takes.lookahead_bind fun t ht => ?_
  rw [ht]
  exact hblock

lemma reads_loopBlock (h : (Script.block e).Reads f ts) : (Script.loopBody false e).Reads f ts := by
  obtain ⟨⟨us, rfl⟩, htakes⟩ := h
  have hkind : kindOf "\x7b" = .lBrace := kindOf_lBrace
  refine ⟨Nat.succ_pos _, fun n c rest hroom _ => Takes.sees_pos hkind (htakes n c rest ?_)⟩
  exact ⟨Nat.le_of_succ_le hroom.levels, Nat.le_of_succ_le hroom.depth, hroom.inside⟩

lemma reads_loopSingle (h : StatementReads f openIf e ts)
    (hne : ∀ rest, headKind (lexemesBefore ts rest) ≠ .lBrace) :
    (Script.loopBody openIf (.blockStatement [e])).Reads f ts := by
  refine ⟨h.length_pos, fun n c rest hroom hbehind => Takes.sees_neg (hne rest) ?_⟩
  exact (h.inner hroom.levels hroom.depth hroom.inside hbehind).bind (Takes.pure _)

variable {us vs ws : List String}

lemma StatementReads.forStatement {init test update : Option Node}
    (hinit : WritesPerhaps WritesStart init ts) (htest : WritesPerhaps WritesName test us)
    (hupdate : WritesPerhaps WritesName update vs) (h : (Script.loopBody openIf e).Reads f ws) :
    StatementReads f openIf (.forStatement init test update e)
      ("for" :: "(" :: (ts ++ ";" :: (us ++ ";" :: (vs ++ ")" :: ws)))) := by
  obtain ⟨hpos, htakes⟩ := h
  refine .of_kind kindOf_for rfl fun n c rest hroom hbehind => ?_
  have hlevels := hroom.levels
  have hdepth := hroom.depth
  have hbehind' : Behind openIf ws rest :=
    Behind.tail ("for" :: "(" :: (ts ++ ";" :: (us ++ ";" :: (vs ++ [")"]))))
      (by simpa using hbehind) hpos
  simp only [List.length_cons, List.length_append] at hlevels hdepth
  simp only [lexemesBefore_cons, lexemesBefore_append]
  have hsemicolon : kindOf ";" = .semicolon := kindOf_semicolon
  refine Takes.lookahead_bind fun t ht => ?_
  rw [ht]
  refine Takes.expect_skip (Takes.expect_mark kindOf_lParen ?_)
  have hfirst : headKind ((kindOf ";", ";") ::
      lexemesBefore us ((kindOf ";", ";") :: lexemesBefore vs ((kindOf ")", ")") ::
        lexemesBefore ws rest))) = .semicolon := hsemicolon
  refine (hinit.loopStart (by omega) (by omega) (Or.inl hfirst)).bind (Takes.sees_neg ?_ ?_)
  · rw [hfirst]
    decide
  refine Takes.expect_mark kindOf_semicolon ?_
  refine (htest.clause kindOf_semicolon (by decide) (by omega) (by omega) _).bind ?_
  refine (hupdate.clause kindOf_rParen (by decide) (by omega) (by omega) _).bind ?_
  exact (htakes n c rest ⟨by omega, by omega, hroom.inside⟩ hbehind').bind (Takes.pure _)

lemma StatementReads.forOfStatement {left right : Node} (hleft : WritesStart left ts)
    (hright : WritesName right us) (h : (Script.loopBody openIf e).Reads f vs) :
    StatementReads f openIf (.forOfStatement left right e)
      ("for" :: "(" :: (ts ++ "of" :: (us ++ ")" :: vs))) := by
  obtain ⟨hpos, htakes⟩ := h
  refine .of_kind kindOf_for rfl fun n c rest hroom hbehind => ?_
  have hlevels := hroom.levels
  have hdepth := hroom.depth
  have hbehind' : Behind openIf vs rest :=
    Behind.tail ("for" :: "(" :: (ts ++ "of" :: (us ++ [")"]))) (by simpa using hbehind) hpos
  simp only [List.length_cons, List.length_append, hright.length] at hlevels hdepth
  simp only [lexemesBefore_cons, lexemesBefore_append]
  have hof : headKind ((kindOf "of", "of") :: lexemesBefore us ((kindOf ")", ")") ::
      lexemesBefore vs rest)) = .kwOf := kindOf_of
  have hparen : kindOf ")" = .rParen := kindOf_rParen
  obtain ⟨n, rfl⟩ : ∃ d, n = d + 1 := ⟨n - 1, by omega⟩
  refine Takes.lookahead_bind fun t ht => ?_
  rw [ht]
  refine Takes.expect_skip (Takes.expect_mark kindOf_lParen ?_)
  refine ((WritesPerhaps.present hleft).loopStart (by omega) (by omega)
    (Or.inr ⟨by simp, hof⟩)).bind (Takes.sees_pos hof ?_)
  refine Takes.advance_bind fun _ _ => ?_
  have hends : Ends 1 ((kindOf ")", ")") :: lexemesBefore vs rest) :=
    ends_of_grip?_eq_none (by rw [headKind_cons, hparen]; rfl)
  refine (hright.assignment (n := n) (by omega) (by omega) hends).bind ?_
  refine Takes.expect_mark kindOf_rParen ?_
  exact (htakes (n + 1) c rest ⟨by omega, by omega, hroom.inside⟩ hbehind').bind (Takes.pure _)

lemma reads_handler {param : Option Node} (hparam : WritesPerhaps WritesCaught param ts)
    (h : (Script.block e).Reads f us) :
    (Script.handler (some (.catchClause param e))).Reads f ("catch" :: (ts ++ us)) := by
  obtain ⟨⟨vs, rfl⟩, htakes⟩ := h
  refine fun n c rest hroom _ => Takes.optionally_mark kindOf_catch ?_
  have hlevels := hroom.levels
  have hdepth := hroom.depth
  simp only [List.length_cons, List.length_append] at hlevels hdepth
  have hbrace : kindOf "\x7b" = .lBrace := kindOf_lBrace
  have hcaught : Takes (optionally .lParen Grammar.catchParameter) c
      (lexemesBefore ts (lexemesBefore ("\x7b" :: vs) rest)) param
      (lexemesBefore ("\x7b" :: vs) rest) := by
    cases hparam with
    | absent =>
      refine Takes.optionally_none ?_
      rw [lexemesBefore_nil, lexemesBefore_cons, headKind_cons, hbrace]
      decide
    | present hcaught =>
      cases hcaught with
      | caught hname =>
        rw [lexemesBefore_cons, lexemesBefore_append]
        refine Takes.optionally_mark kindOf_lParen ((hname.identifier _).bind ?_)
        exact Takes.expect_mark kindOf_rParen (Takes.pure _)
  change Takes _ c (lexemesBefore (ts ++ "\x7b" :: vs) rest) _ _
  rw [lexemesBefore_append]
  refine hcaught.bind ((htakes n c rest ⟨?_, ?_, hroom.inside⟩).bind (Takes.pure _))
  · simp only [List.length_cons]
    omega
  · simp only [List.length_cons]
    omega

lemma StatementReads.tryStatement {handler finalizer : Option Node}
    (h : (Script.block e).Reads f ts) (hhandler : (Script.handler handler).Reads f us)
    (hfinalizer : (Script.finalizer finalizer).Reads f vs)
    (hsome : handler.isSome = true ∨ finalizer.isSome = true) :
    StatementReads f false (.tryStatement e handler finalizer) ("try" :: (ts ++ (us ++ vs))) := by
  obtain ⟨-, htakes⟩ := h
  obtain ⟨hfinally, hfinalizer⟩ := hfinalizer
  refine .of_kind kindOf_try rfl fun n c rest hroom hbehind => ?_
  have hlevels := hroom.levels
  have hdepth := hroom.depth
  have hrest := Kind.facts_of_followsStatement hbehind.follows
  have hcatch : headKind (lexemesBefore vs rest) ≠ .kwCatch := by
    rcases hfinally with rfl | ⟨ws, rfl⟩
    · exact hrest.2.2.1
    · rw [lexemesBefore_cons, headKind_cons, kindOf_finally]
      decide
  have hparts : ¬(handler.isNone && finalizer.isNone) = true := by
    cases handler <;> cases finalizer <;> simp at hsome ⊢
  simp only [List.length_append] at hlevels hdepth
  simp only [lexemesBefore_append]
  refine Takes.lookahead_bind fun t ht => ?_
  rw [ht]
  refine Takes.expect_skip ((htakes n c _ ⟨by omega, by omega, hroom.inside⟩).bind ?_)
  refine (hhandler n c _ ⟨by omega, by omega, hroom.inside⟩ hcatch).bind ?_
  refine (hfinalizer n c _ ⟨by omega, by omega, hroom.inside⟩ hrest.2.2.2).bind ?_
  rw [if_neg hparts]
  exact Takes.pure _

/-- A function declaration is told from an expression by the name behind `function`. -/
lemma declaresFunction_takes (generator isAsync : Bool) (text name : String) (c : Context)
    (rest : List (Kind × String)) :
    Takes declaresFunction c
      ((if isAsync then [(.kwAsync, "async")] else []) ++
        (if generator then .kwFunctionStar else .kwFunction, text) :: (.identifier, name) :: rest)
      true
      ((if isAsync then [(.kwAsync, "async")] else []) ++
        (if generator then .kwFunctionStar else .kwFunction, text) :: (.identifier, name) ::
          rest) := by
  intro r hr
  refine ⟨r, ?_, hr⟩
  rw [declaresFunction_run]
  cases isAsync with
  | false =>
    obtain ⟨next, after, hnext, hafter⟩ := hr.next
    have hkind : r.lookahead.kind ≠ .kwAsync := by
      rw [hr.kind_eq]
      cases generator <;> exact nofun
    have hname : next.kind = .identifier := hafter.kind_eq
    rw [hnext]
    simp [hkind, hname]
  | true =>
    obtain ⟨next, after, hnext, hafter⟩ := hr.next
    obtain ⟨last, behind, hlast, hbehind⟩ := hafter.next
    have hkind : r.lookahead.kind = .kwAsync := hr.kind_eq
    have hword : next.kind = if generator then .kwFunctionStar else .kwFunction := hafter.kind_eq
    have hname : last.kind = .identifier := hbehind.kind_eq
    rw [hnext]
    cases generator <;> simp_all

/-- What stands behind `async`, or behind nothing, in a function declaration. -/
lemma functionTail_takes (generator isAsync : Bool) (text name : String) {params : List Node}
    (hparams : WritesRow WritesParameter params us) (h : (Script.block e).Reads true vs) {n : Nat}
    {c : Context} (hlevels : us.length + vs.length + 1 < n)
    (hdepth : c.depth + vs.length < c.limit) (rest : List (Kind × String)) :
    Takes (do
      let generator ← Grammar.functionKeyword
      let id ← identifier
      let params ← (Grammar.upTo n).parameters
      let body ← (Grammar.upTo n).functionBody
      pure (Node.functionDeclaration id generator isAsync params body)) c
      ((if generator then .kwFunctionStar else .kwFunction, text) :: (.identifier, name) ::
        (kindOf "(", "(") :: lexemesBefore us ((kindOf ")", ")") :: lexemesBefore vs rest))
      (.functionDeclaration (.identifier name) generator isAsync params e) rest := by
  have hkeyword : ∀ ls, Takes Grammar.functionKeyword c
      ((if generator then .kwFunctionStar else .kwFunction, text) :: ls) generator ls := by
    intro ls
    refine Takes.lookahead_bind fun t ht => ?_
    rw [ht]
    cases generator <;> exact Takes.advance_bind fun _ _ => Takes.pure _
  have hbody : Takes (Grammar.upTo n).functionBody c (lexemesBefore vs rest) e rest :=
    h.2 n { c with inFunction := true } rest
      ⟨by omega, by change c.depth + vs.length ≤ c.limit; omega, fun _ => rfl⟩
  refine (hkeyword _).bind (identifier_takes.bind ?_)
  exact (hparams.parameters (by omega) (by omega) _).bind (hbody.bind (Takes.pure _))

lemma StatementReads.functionDeclaration {generator isAsync : Bool} {id : Node}
    {params : List Node} (hid : WritesName id ts) (hparams : WritesRow WritesParameter params us)
    (h : (Script.block e).Reads true vs) :
    StatementReads f false (.functionDeclaration id generator isAsync params e)
      ((if isAsync then ["async"] else []) ++
        (if generator then "function*" else "function") :: (ts ++ "(" :: (us ++ ")" :: vs))) := by
  cases hid with
  | @name name hname =>
  have hword := kindOf_functionWord generator
  have hasync : kindOf "async" = .kwAsync := kindOf_async
  have hidentifier := (onLine_of_name hname).1
  generalize (if generator then "function*" else "function") = text at hword ⊢
  cases isAsync with
  | false =>
    refine .of_kind hword (by cases generator <;> rfl) fun n c rest hroom _ => ?_
    have hlevels := hroom.levels
    have hdepth := hroom.depth
    simp only [List.length_cons, List.length_append, List.length_nil] at hlevels hdepth
    simp only [lexemesBefore_cons, lexemesBefore_append, lexemesBefore_nil, hidentifier]
    have htakes : Takes (Grammar.upTo n).functionDeclaration c _ _ rest :=
      Takes.accept_neg (by cases generator <;> exact nofun)
        (functionTail_takes generator false text name hparams h (by omega) (by omega) rest)
    have hdeclares := declaresFunction_takes generator false text name c
      ((kindOf "(", "(") :: lexemesBefore us ((kindOf ")", ")") :: lexemesBefore vs rest))
    refine Takes.lookahead_bind fun t ht => ?_
    rw [ht]
    cases generator <;> exact hdeclares.bind htakes
  | true =>
    rw [if_pos rfl, List.singleton_append]
    refine .of_kind hasync rfl fun n c rest hroom _ => ?_
    have hlevels := hroom.levels
    have hdepth := hroom.depth
    simp only [List.length_cons, List.length_append, List.length_nil] at hlevels hdepth
    simp only [lexemesBefore_cons, lexemesBefore_append, lexemesBefore_nil, hidentifier, hword]
    have htakes : Takes (Grammar.upTo n).functionDeclaration c _ _ rest :=
      @Takes.accept_pos _ c _ _ .kwAsync "async" _ _
        (functionTail_takes generator true text name hparams h (by omega) (by omega) rest)
    have hdeclares := declaresFunction_takes generator true text name c
      ((kindOf "(", "(") :: lexemesBefore us ((kindOf ")", ")") :: lexemesBefore vs rest))
    refine Takes.lookahead_bind fun t ht => ?_
    rw [ht]
    exact hdeclares.bind htakes

end Blocks

/-- All lexemes of a part are read back from lines of their own. -/
def ReadsLines (R : Node → List String → Prop) : Prop :=
  ∀ e ts, R e ts → OnLines ts

lemma onLines_mark (kind : Kind) (hkind : statementMarks.contains kind = true) {ts : List String}
    (h : OnLines ts) : OnLines (kind.name :: ts) :=
  .cons (onLine_mark kind hkind) h

lemma readsLines_name : ReadsLines WritesName := by
  rintro _ _ ⟨h⟩
  exact .cons (onLine_of_name h).2 .nil

lemma readsLines_value : ReadsLines WritesValue := by
  rintro _ _ ⟨h⟩
  exact .cons (onLine_assignment .assign) (readsLines_name _ _ h)

lemma readsLines_caught : ReadsLines WritesCaught := by
  rintro _ _ ⟨h⟩
  exact onLines_mark .lParen rfl
    ((readsLines_name _ _ h).append (onLines_mark .rParen rfl .nil))

lemma readsLines_parameter : ReadsLines WritesParameter := by
  rintro _ _ (h | ⟨h, hvalue⟩)
  · exact readsLines_name _ _ h
  · exact (readsLines_name _ _ h).append (readsLines_value _ _ hvalue)

lemma ReadsLines.perhaps {R : Node → List String → Prop} (h : ReadsLines R) {e? : Option Node}
    {ts : List String} (hts : WritesPerhaps R e? ts) : OnLines ts := by
  cases hts with
  | absent => exact .nil
  | present he => exact h _ _ he

lemma ReadsLines.row {R : Node → List String → Prop} (h : ReadsLines R) {es : List Node}
    {ts : List String} (hts : WritesRow R es ts) : OnLines ts := by
  induction hts with
  | none => exact .nil
  | last he => exact h _ _ he
  | cons he _ ih => exact (h _ _ he).append (onLines_mark .comma rfl ih)

lemma readsLines_declaration : ReadsLines WritesDeclaration := by
  rintro _ _ (@⟨kind, _, _, _, _, hid, hvalue⟩)
  exact .cons (onLine_keyword kind)
    ((readsLines_name _ _ hid).append (readsLines_value.perhaps hvalue))

lemma readsLines_start : ReadsLines WritesStart := by
  rintro _ _ (h | h)
  · exact readsLines_declaration _ _ h
  · exact readsLines_name _ _ h

lemma WritesEnd.onLines {ts : List String} (h : WritesEnd ts) : OnLines ts := by
  cases h with
  | absent => exact .nil
  | present => exact onLines_mark .semicolon rfl .nil

/-- An expression in parentheses with what stands behind it. -/
lemma onLines_enclosed {ts us : List String} (h : OnLines ts) (hus : OnLines us) :
    OnLines ("(" :: (ts ++ ")" :: us)) :=
  onLines_mark .lParen rfl (h.append (onLines_mark .rParen rfl hus))

/-- What is written down is scanned to its lexemes when each has a line of its own. -/
theorem Writes.onLines {f : Bool} {script : Script} {ts : List String} (h : Writes f script ts) :
    OnLines ts := by
  induction h with
  | rowNil | noHandler | noFinalizer => exact .nil
  | rowCons _ _ _ ih ihrow => exact ih.append ihrow
  | block _ ih =>
    exact onLines_mark .lBrace rfl (ih.append (onLines_mark .rBrace rfl .nil))
  | blockStatement _ ih | loopBlock _ ih | loopSingle _ _ ih => exact ih
  | expression h hend => exact (readsLines_name _ _ h).append hend.onLines
  | declaration h hend => exact (readsLines_declaration _ _ h).append hend.onLines
  | breakStatement hend => exact onLines_mark .kwBreak rfl hend.onLines
  | continueStatement hend => exact onLines_mark .kwContinue rfl hend.onLines
  | throwStatement h hend =>
    exact onLines_mark .kwThrow rfl ((readsLines_name _ _ h).append hend.onLines)
  | returnStatement h hend =>
    exact onLines_mark .kwReturn rfl ((readsLines_name.perhaps h).append hend.onLines)
  | ifThen htest _ ih =>
    exact onLines_mark .kwIf rfl (onLines_enclosed (readsLines_name _ _ htest) ih)
  | ifElse htest _ _ _ ih ihelse =>
    exact onLines_mark .kwIf rfl (onLines_enclosed (readsLines_name _ _ htest)
      (ih.append (onLines_mark .kwElse rfl ihelse)))
  | whileStatement htest _ ih =>
    exact onLines_mark .kwWhile rfl (onLines_enclosed (readsLines_name _ _ htest) ih)
  | doWhileStatement _ _ htest hend ih =>
    exact onLines_mark .kwDo rfl (ih.append (onLines_mark .kwWhile rfl
      (onLines_enclosed (readsLines_name _ _ htest) hend.onLines)))
  | forStatement hinit htest hupdate _ ih =>
    refine onLines_mark .kwFor rfl (onLines_mark .lParen rfl ?_)
    refine (readsLines_start.perhaps hinit).append (onLines_mark .semicolon rfl ?_)
    refine (readsLines_name.perhaps htest).append (onLines_mark .semicolon rfl ?_)
    exact (readsLines_name.perhaps hupdate).append (onLines_mark .rParen rfl ih)
  | forOfStatement hleft hright _ ih =>
    refine onLines_mark .kwFor rfl (onLines_mark .lParen rfl ?_)
    refine (readsLines_start _ _ hleft).append (onLines_mark .kwOf rfl ?_)
    exact (readsLines_name _ _ hright).append (onLines_mark .rParen rfl ih)
  | handler hparam _ ih =>
    exact onLines_mark .kwCatch rfl ((readsLines_caught.perhaps hparam).append ih)
  | finalizer _ ih => exact onLines_mark .kwFinally rfl ih
  | tryStatement _ _ _ _ ih ihhandler ihfinalizer =>
    exact onLines_mark .kwTry rfl (ih.append (ihhandler.append ihfinalizer))
  | @functionDeclaration _ generator isAsync _ _ _ _ _ _ hid hparams _ ih =>
    have hparts := onLines_enclosed (readsLines_parameter.row hparams) ih
    have hasync : OnLines (if isAsync then ["async"] else []) := by
      cases isAsync
      · exact .nil
      · exact onLines_mark .kwAsync rfl .nil
    refine hasync.append ?_
    cases hid with
    | name hname =>
      have hbehind := OnLines.cons (onLine_of_name hname).2 hparts
      cases generator
      · exact .function hname hbehind
      · exact .cons onLine_functionStar.2 hbehind

/-- Only a brace is read as one. -/
lemma OnLines.headKind_ne {ts : List String} (h : OnLines ts) (hpos : 0 < ts.length)
    (hne : ts.head? ≠ some "\x7b") (rest : List (Kind × String)) :
    headKind (lexemesBefore ts rest) ≠ .lBrace := by
  cases h with
  | nil => exact absurd hpos (Nat.lt_irrefl 0)
  | @cons text ts htext _ =>
    intro hkind
    have hfirst := htext [] (Or.inl rfl)
    rw [List.append_nil, show kindOf text = .lBrace from hkind] at hfirst
    have hspells := Cursor.spells_of_first? hfirst
    rw [List.take_length, String.ofList_toList] at hspells
    have hmem := mem_of_oneOf ["\x7b"] (by decide) rfl hspells
    exact hne (congrArg some (List.mem_singleton.1 hmem))
  | function _ _ =>
    rw [lexemesBefore_cons, headKind_cons, kindOf_function]
    decide

/-- What is written down is read back. -/
theorem Writes.reads {f : Bool} {script : Script} {ts : List String} (h : Writes f script ts) :
    script.Reads f ts := by
  induction h with
  | rowNil => exact .nil
  | rowCons _ _ hreturn ih ihrow => exact .cons ih ihrow hreturn
  | block _ ih =>
    refine ⟨⟨_, rfl⟩, fun n c rest hroom => ih.block_takes ?_ rest⟩
    simpa using hroom
  | blockStatement _ ih => exact .block ih
  | expression h hend => exact .expression h hend
  | declaration h hend => exact .declaration h hend
  | breakStatement hend => exact .breakStatement hend
  | continueStatement hend => exact .continueStatement hend
  | throwStatement h hend => exact .throwStatement h hend
  | returnStatement h hend => exact .returnStatement h hend
  | ifThen htest _ ih => exact .ifThen htest ih
  | ifElse htest _ hreturn _ ih ihelse => exact .ifElse htest ih hreturn ihelse
  | whileStatement htest _ ih => exact .whileStatement htest ih
  | doWhileStatement _ hreturn htest hend ih => exact .doWhileStatement ih hreturn htest hend
  | loopBlock _ ih => exact reads_loopBlock ih
  | loopSingle h hblock ih =>
    exact reads_loopSingle ih fun rest => h.onLines.headKind_ne ih.length_pos hblock rest
  | forStatement hinit htest hupdate _ ih => exact .forStatement hinit htest hupdate ih
  | forOfStatement hleft hright _ ih => exact .forOfStatement hleft hright ih
  | noHandler => exact fun n c rest _ hrest => Takes.optionally_none hrest
  | handler hparam _ ih => exact reads_handler hparam ih
  | noFinalizer => exact ⟨Or.inl rfl, fun n c rest _ hrest => Takes.optionally_none hrest⟩
  | finalizer _ ih =>
    refine ⟨Or.inr ⟨_, rfl⟩, fun n c rest hroom _ => Takes.optionally_mark kindOf_finally ?_⟩
    exact ih.2 n c rest
      ⟨Nat.le_of_succ_le hroom.levels, Nat.le_of_succ_le hroom.depth, hroom.inside⟩
  | tryStatement _ _ _ hsome ih ihhandler ihfinalizer =>
    exact .tryStatement ih ihhandler ihfinalizer hsome
  | functionDeclaration hid hparams _ ih => exact .functionDeclaration hid hparams ih

/-- Statements that are written with one lexeme on each line are read back as they are, whichever
semicolons were left out. -/
theorem parse_of_writes {body : List Node} {texts : List String}
    (h : Writes false (.row body) texts) {limit : Nat} (hlimit : 2 * texts.length + 2 ≤ limit) :
    parse ("\n".intercalate texts) limit = .ok (.program body) := by
  obtain ⟨hlexemes, last, hlast⟩ := h.onLines.scansBack 0
  have hrow : RowReads false body texts := h.reads
  refine parse_of_takes (fun n hn => ?_) hlexemes hlast
  rw [List.length_map] at hn
  have htakes := hrow.program_takes (n := n + 1) rfl (by omega) (show texts.length < limit by omega)
  rwa [lexemesBefore, List.append_nil] at htakes

theorem reads_back_returns_and_loops :
    Writes false (.row [.functionDeclaration (.identifier "f") false false
        [.assignmentPattern (.identifier "a") (.identifier "b")]
        (.blockStatement [.ifStatement (.identifier "a") (.returnStatement none)
          (some (.returnStatement none))]),
      .doWhileStatement (.identifier "a") (.identifier "b"),
      .forStatement none none (some (.identifier "a")) (.blockStatement [.breakStatement])])
      ["function", "f", "(", "a", "=", "b", ")", "\x7b", "if", "(", "a", ")", "return", ";", "else",
        "return", "\x7d", "do", "a", "while", "(", "b", ")", "for", "(", ";", ";", "a", ")",
        "break"] ∧
    parse ("function\nf\n(\na\n=\nb\n)\n\x7b\nif\n(\na\n)\nreturn\n;\nelse\nreturn\n\x7d\n" ++
        "do\na\nwhile\n(\nb\n)\nfor\n(\n;\n;\na\n)\nbreak") 62 =
      .ok (.program [.functionDeclaration (.identifier "f") false false
          [.assignmentPattern (.identifier "a") (.identifier "b")]
          (.blockStatement [.ifStatement (.identifier "a") (.returnStatement none)
            (some (.returnStatement none))]),
        .doWhileStatement (.identifier "a") (.identifier "b"),
        .forStatement none none (some (.identifier "a")) (.blockStatement [.breakStatement])]) := by
  have hnames : ∀ name ∈ ["a", "b", "f"],
      (scanSource name).1.map Token.lexeme = [(.identifier, name)] ∧
        (scanSource name).2 = .ok (.endOfFile 1) := by
    decide +kernel
  have hname : ∀ name ∈ ["a", "b", "f"], WritesName (.identifier name) [name] :=
    fun name hmem => .name ⟨(hnames name hmem).1, _, (hnames name hmem).2⟩
  have ha := hname "a" (by simp)
  have hb := hname "b" (by simp)
  have hf := hname "f" (by simp)
  have hif := Writes.ifElse ha (.returnStatement .absent .present) (by simp [EndsInReturn])
    (.returnStatement .absent .absent)
  have hbody := Writes.block (.rowCons hif .rowNil nofun)
  have hfunction := @Writes.functionDeclaration false false false _ _ _ _ _ _ hf
    (.last (.withDefault ha (.value hb))) hbody
  have hdo := Writes.doWhileStatement (f := false) (.expression ha .absent)
    (by simp [EndsInReturn]) hb .absent
  have hfor := Writes.forStatement (f := false) .absent .absent (.present ha)
    (.loopSingle (.breakStatement .absent) (by decide))
  have hrow := Writes.rowCons hfunction (.rowCons hdo (.rowCons hfor .rowNil nofun)
    fun _ => by simp [EndsInReturn]) fun _ => by simp [EndsInReturn]
  exact ⟨hrow, parse_of_writes hrow (by decide)⟩

end ScriptTree
