import ScriptTree.Proofs.Faults
import ScriptTree.Proofs.Outside
import ScriptTree.Proofs.Templates

/-!
# Sources in a block and in a function

The statements of a source are read in the same way by themselves, in braces, and as the body of a
function: the end of the source and the closing brace end the same loop, and the level of nesting
that the braces take is paid for by a higher limit. Only a `return` tells these places apart, and
only a free one.

Main statement: `returns_are_lexical`.
-/

namespace ScriptTree

open ScriptTree.Parser

section Loops

variable {g : Grammar} {c d : Context} {r s : Reading} {body result : List Node} {bound k : Nat}

lemma blockLoop_end (bound : Nat) (body : List Node) (h : r.lookahead.kind = .rBrace) :
    loop g.nextInBlock (bound + 1) body c r = .ok (body.reverse, r) := by
  have hturn : g.nextInBlock body c r = .ok (.done body.reverse, r) := by
    unfold Grammar.nextInBlock
    rw [sees_of_eq h]
    rfl
  exact loop_of_done bound hturn

lemma blockLoop_step (bound : Nat) (body : List Node) (hbrace : r.lookahead.kind ≠ .rBrace)
    (hend : r.lookahead.kind ≠ .endOfFile) :
    loop g.nextInBlock (bound + 1) body c r =
      (g.parse .statement >>= fun n => loop g.nextInBlock bound (n :: body)) c r := by
  have hturn : g.nextInBlock body c r =
      (g.parse .statement >>= fun n => pure (.again (n :: body))) c r := by
    unfold Grammar.nextInBlock
    rw [sees_of_ne hbrace, sees_of_ne hend]
  rw [loop, bind_congr_run hturn]
  simp only [bind_assoc, pure_bind]

/-- A block is refused where the source ends. -/
lemma blockLoop_of_eof (bound : Nat) (body : List Node) (h : r.lookahead.kind = .endOfFile) :
    ∃ i, loop g.nextInBlock bound body c r = .error i := by
  cases bound with
  | zero => exact ⟨_, rfl⟩
  | succ bound =>
    have hturn : ∃ i, g.nextInBlock body c r = .error i := by
      unfold Grammar.nextInBlock
      rw [sees_of_ne (by simp [h]), sees_of_eq h]
      exact ⟨_, rfl⟩
    obtain ⟨i, hi⟩ := hturn
    exact ⟨i, loop_of_error bound hi⟩

/-- No statement begins with a closing brace. -/
lemma statement_of_rBrace (hbound : 0 < g.bound) (h : r.lookahead.kind = .rBrace) :
    ∃ i, g.statement c r = .error i := by
  have hnested : ∀ {p : Parser Node} {c : Context}, (∀ d, ∃ i, p d r = .error i) →
      ∃ i, nested p c r = .error i := by
    intro p c hp
    unfold nested
    split
    · exact ⟨_, rfl⟩
    · exact hp _
  have hunary : ∀ c, ∃ i, g.unary c r = .error i := by
    refine fun c => hnested fun d => ?_
    have hbase : g.base d r = .error (.rejected (.unexpectedToken .rBrace r.lookahead.span)) := by
      unfold Grammar.base
      rw [sees_of_ne (by simp [h])]
      simp only [Grammar.primary, Bind.bind, lookahead, h]
      simp only [unexpected, Bind.bind, lookahead, h, reject]
    have hoperand : g.operand d r = g.suffixed d r := by
      simp only [Grammar.operand, Bind.bind, lookahead, h]
    rw [hoperand]
    exact ⟨_, (suffixed_carries hbound).error _ hbase⟩
  refine hnested fun d => ?_
  obtain ⟨i, hi⟩ := hunary d
  have hassignment := assignment_carries.error i
    ((operation_carries hbound).error i (power_carries.error i hi))
  have helement : g.element d r = .error i := by
    unfold Grammar.element
    rw [sees_of_ne (by simp [h])]
    exact hassignment
  have hsequence : g.sequence d r = .error i := by
    simp only [Grammar.sequence, Bind.bind, helement]
  refine ⟨i, ?_⟩
  simp only [Grammar.statementKind, Bind.bind, lookahead, h, Grammar.expressionStatement, hsequence]

variable {z : Closer}

/-- What is read as a program is read in front of a closing brace too, up to that brace. -/
theorem block_of_program (hk : 2 ≤ k) (hz : z.kind = .rBrace) (hc : c.Alike d) (hat : z.At r s)
    {r' : Reading}
    (h : loop (Grammar.upTo k).nextInProgram bound body c r = .ok (.program result, r')) :
    ∃ s', loop (Grammar.upTo k).nextInBlock bound body d s = .ok (result, s') ∧ z.Behind r' s' := by
  induction bound generalizing body r s with
  | zero => cases h
  | succ bound ih =>
    cases hat with
    | behind hbehind =>
      rw [programLoop_end bound body hbehind.kind] at h
      cases h
      exact ⟨s, blockLoop_end bound body (hbehind.bracket.trans hz), hbehind⟩
    | along halong =>
      rw [programLoop_step bound body halong.kind_ne] at h
      obtain ⟨n, u, hstatement, hloop⟩ := bind_eq_ok.1 h
      have hkind := Made.kind_eq halong.lexeme
      have hbrace : r.lookahead.kind ≠ .rBrace := by
        intro hkind
        obtain ⟨j, rfl⟩ := Nat.exists_eq_add_of_le' (Nat.le_of_succ_le hk)
        obtain ⟨i, hi⟩ := statement_of_rBrace (g := .upTo j) (c := c)
          (show 0 < j by omega) hkind
        change (Grammar.upTo j).statement c r = _ at hstatement
        rw [hi] at hstatement
        cases hstatement
      have hjoins := Closer.run_join k .statement c d r s hc (.along halong) (by simp)
      change Grammar.run k .statement c r = _ at hstatement
      rw [hstatement] at hjoins
      generalize hsecond : Grammar.run k .statement d s = y at hjoins
      cases hjoins with
      | ok hat =>
        obtain ⟨s', hs', hbehind⟩ := ih hat hloop
        refine ⟨s', ?_, hbehind⟩
        rw [blockLoop_step bound body (hkind ▸ hbrace) (hkind ▸ halong.kind_ne)]
        change (Grammar.run k .statement >>= _) d s = _
        rw [bind_of_ok hsecond]
        exact hs'

/-- Statements in front of the last brace of a source are read as a program. -/
theorem program_of_block (hz : z.kind = .rBrace) (htail : z.tail = []) (hc : c.Alike d)
    (hat : z.At r s) {s' : Reading} {token : Token} {after : Cursor}
    (h : loop (Grammar.upTo k).nextInBlock bound body d s = .ok (result, s'))
    (hnext : s'.cursor.next = (.ok token, after)) (hend : token.kind = .endOfFile) :
    ∃ r', loop (Grammar.upTo k).nextInProgram bound body c r = .ok (.program result, r') := by
  induction bound generalizing body r s with
  | zero => cases h
  | succ bound ih =>
    by_cases hbrace : s.lookahead.kind = .rBrace
    · rw [blockLoop_end bound body hbrace] at h
      cases h
      cases hat with
      | behind hbehind => exact ⟨r, programLoop_end bound body hbehind.kind⟩
      | along halong =>
        -- a brace of the text itself has the last one behind it
        exact absurd hend (halong.next_ne hnext)
    · have halong : z.Along r s := by
        cases hat with
        | along halong => exact halong
        | behind hbehind => exact absurd (hbehind.bracket.trans hz) hbrace
      rw [blockLoop_step bound body hbrace hat.second_ne] at h
      obtain ⟨n, u, hstatement, hloop⟩ := bind_eq_ok.1 h
      have hjoins := Closer.run_join k .statement c d r s hc hat (by simp)
      change Grammar.run k .statement d s = _ at hstatement
      rw [hstatement] at hjoins
      generalize hfirst : Grammar.run k .statement c r = x at hjoins
      cases hjoins with
      | ok hat =>
        obtain ⟨r', hr'⟩ := ih hat hloop
        refine ⟨r', ?_⟩
        rw [programLoop_step bound body halong.kind_ne]
        change (Grammar.run k .statement >>= _) c r = _
        rw [bind_of_ok hfirst]
        exact hr'
      | past hahead =>
        -- a statement that went over the last brace leaves none for the block
        obtain ⟨i, hi⟩ := blockLoop_of_eof (g := .upTo k) (c := d) bound (n :: body)
          (hahead htail).1
        rw [hi] at hloop
        cases hloop

end Loops

section Blocks

variable {source : String} {c d : Context} {r : Reading} {n : Node} {body : List Node} {k : Nat}

/-- What is between the braces of a block at the end of a source is a program, and what is a program
may stand there. -/
theorem block_iff_program (hk : 2 ≤ k) (hc : c.Alike d) {t : Token} {cursor : Cursor}
    (ht : t.kind = .lBrace)
    (hrest : cursor.rest = '\n' :: (source.toList ++ (Closer.brace []).text)) :
    (∃ s, (Grammar.upTo k).block d ⟨t, cursor⟩ = .ok (.blockStatement body, s) ∧
      s.lookahead.kind = .endOfFile) ↔
    ∃ token after r, (Cursor.ofSource source).next = (.ok token, after) ∧
      (Grammar.upTo k).program c ⟨token, after⟩ = .ok (.program body, r) := by
  have hheads : (Closer.brace []).Heads (Cursor.ofSource source).next cursor.next :=
    Closer.next_line hrest (Or.inl List.not_mem_nil)
  have hopen : ∀ {u y}, cursor.next = (.ok u, y) → (Grammar.upTo k).block d ⟨t, cursor⟩ =
      (loop (Grammar.upTo k).nextInBlock (Grammar.upTo k).bound [] >>= fun body =>
        expect .rBrace >>= fun _ => pure (.blockStatement body)) d ⟨u, y⟩ :=
    fun hnext => bind_of_ok (expect_of_next ht hnext)
  constructor
  · rintro ⟨s, hblock, hend⟩
    obtain ⟨_, _, hfront, -⟩ := bind_eq_ok.1 hblock
    obtain ⟨-, u, y, hnext, -⟩ := expect_eq_ok hfront
    rw [hopen hnext] at hblock
    obtain ⟨found, s', hloop, hclose⟩ := bind_eq_ok.1 hblock
    obtain ⟨_, s'', hexpect, hpure⟩ := bind_eq_ok.1 hclose
    obtain ⟨hfound, rfl⟩ := pure_eq_ok.1 hpure
    obtain ⟨-, last, after, hlast, rfl⟩ := expect_eq_ok hexpect
    cases hfound
    rw [hnext] at hheads
    obtain ⟨token, start, hfirst, hat⟩ := hheads.first
    obtain ⟨r, hr⟩ := program_of_block rfl rfl hc hat hloop hlast hend
    exact ⟨token, start, r, hfirst, hr⟩
  · rintro ⟨token, after, r, hfirst, hprogram⟩
    rw [hfirst] at hheads
    obtain ⟨u, y, hnext, hat⟩ := hheads.second
    obtain ⟨s, hloop, hbehind⟩ := block_of_program hk rfl hc hat hprogram
    have hbracket : s.lookahead.kind = .rBrace := hbehind.bracket
    have hlast := Cursor.next_of_nil hbehind.tail
    refine ⟨⟨.endOfFile s.cursor.offset, s.cursor⟩, ?_, rfl⟩
    rw [hopen hnext, bind_of_ok hloop, bind_of_ok (expect_of_next hbracket hlast)]
    rfl

/-- A source of one statement. -/
lemma parse_singleton_iff {limit : Nat} {token : Token} {after : Cursor}
    (hk : source.toList.length < k + 2) (hnext : (Cursor.ofSource source).next = (.ok token, after))
    (hend : token.kind ≠ .endOfFile) :
    parse source limit = .ok (.program [n]) ↔
      ∃ s, (Grammar.upTo (k + 1)).statement ⟨limit, 0, false⟩ ⟨token, after⟩ = .ok (n, s) ∧
        s.lookahead.kind = .endOfFile := by
  have hstep : (Grammar.upTo (k + 2)).program ⟨limit, 0, false⟩ ⟨token, after⟩ =
      ((Grammar.upTo (k + 1)).statement >>= fun n =>
        loop (Grammar.upTo (k + 2)).nextInProgram (k + 1) [n]) ⟨limit, 0, false⟩ ⟨token, after⟩ :=
    programLoop_step (k + 1) [] hend
  rw [parse_eq_ok_iff hk]
  constructor
  · rintro ⟨token', after', r, hnext', hrun⟩
    cases hnext.symm.trans hnext'
    rw [hstep] at hrun
    obtain ⟨m, u, hstatement, hloop⟩ := bind_eq_ok.1 hrun
    obtain ⟨rfl, hlast⟩ := only_statement hloop
    exact ⟨u, hstatement, hlast⟩
  · rintro ⟨s, hstatement, hlast⟩
    refine ⟨token, after, s, hnext, ?_⟩
    rw [hstep, bind_of_ok hstatement]
    exact programLoop_end k [n] hlast

end Blocks

/-- A source in braces, on lines of its own. -/
def inBraces (source : String) : String :=
  "\x7b\n" ++ source ++ "\n\x7d"

/-- A source as the body of a function, on lines of its own. -/
def inFunctionBody (source : String) : String :=
  "function f()\x7b\n" ++ source ++ "\n\x7d"

section Sources

variable {source : String} {limit : Nat} {body : List Node}

/-- A source is accepted in braces as it is by itself. -/
theorem parse_inBraces_iff :
    parse (inBraces source) (limit + 1) = .ok (.program [.blockStatement body]) ↔
      parse source limit = .ok (.program body) := by
  have htext : (inBraces source).toList =
      '\x7b' :: '\n' :: (source.toList ++ (Closer.brace []).text) := by
    change ("\x7b\n" ++ source ++ "\n\x7d").toList = _
    rw [String.toList_append, String.toList_append, List.append_assoc]
    rfl
  have hlength : (inBraces source).toList.length < source.toList.length + 3 + 2 := by
    rw [htext, List.length_cons, List.length_cons, List.length_append]
    change source.toList.length + 2 + 1 + 1 < _
    omega
  obtain ⟨t, cursor, hnext, ht, -, hrest⟩ :=
    exists_next .lBrace (x := .ofSource (inBraces source)) _ htext rfl (List.cons_ne_nil _ _)
  have hstatement : (Grammar.upTo (source.toList.length + 4)).statement ⟨limit + 1, 0, false⟩
      ⟨t, cursor⟩ = (Grammar.upTo (source.toList.length + 4)).block ⟨limit + 1, 1, false⟩
        ⟨t, cursor⟩ := by
    unfold Grammar.statement
    rw [nested_of_lt (Nat.succ_pos limit)]
    simp only [Grammar.statementKind, Bind.bind, lookahead, ht]
  rw [parse_singleton_iff hlength hnext (by simp [ht]), hstatement,
    block_iff_program (c := ⟨limit, 0, false⟩) (d := ⟨limit + 1, 1, false⟩) (by omega)
      ⟨rfl, rfl⟩ ht hrest,
    parse_eq_ok_iff (k := source.toList.length + 4) (by omega)]

/-- The tokens in front of the parameters of a function named `f`, from the word `function` to the
opening parenthesis, with the place behind each of them. -/
structure FunctionWord (x : Cursor) (t name u : Token) (x₁ x₂ x₃ : Cursor) : Prop where
  first : x.next = (.ok t, x₁)
  second : x₁.next = (.ok name, x₂)
  third : x₂.next = (.ok u, x₃)
  word : t.kind = .kwFunction
  named : name.kind = .identifier
  text : name.text = "f"
  opening : u.kind = .lParen

section FunctionWord

variable {g : Grammar} {c : Context} {x x₁ x₂ x₃ : Cursor} {t name u : Token}

/-- A statement that begins with the word `function` and a name. -/
lemma statement_of_functionWord (hdepth : c.depth < c.limit)
    (h : FunctionWord x t name u x₁ x₂ x₃) :
    g.statement c ⟨t, x₁⟩ =
      (g.parameters >>= fun params => g.functionBody >>= fun body =>
        pure (.functionDeclaration (.identifier "f") false false params body)) c.deeper
          ⟨u, x₃⟩ := by
  have hdeclares : declaresFunction c.deeper ⟨t, x₁⟩ = .ok (true, ⟨t, x₁⟩) := by
    rw [declaresFunction_run]
    simp only [h.second, h.word, h.named]
    rfl
  have hkeyword : Grammar.functionKeyword c.deeper ⟨t, x₁⟩ = .ok (false, ⟨name, x₂⟩) := by
    have hadvance : advance c.deeper ⟨t, x₁⟩ = .ok (t, ⟨name, x₂⟩) := advance_of_next h.second
    simp only [Grammar.functionKeyword, Bind.bind, lookahead, h.word, hadvance]
    rfl
  have hid : identifier c.deeper ⟨name, x₂⟩ = .ok (.identifier "f", ⟨u, x₃⟩) := by
    rw [← h.text]
    exact bind_of_ok (expect_of_next h.named h.third)
  unfold Grammar.statement
  rw [nested_of_lt hdepth]
  change g.statementKind c.deeper ⟨t, x₁⟩ = _
  have hkind : g.statementKind c.deeper ⟨t, x₁⟩ = g.functionDeclaration c.deeper ⟨t, x₁⟩ := by
    simp only [Grammar.statementKind, Bind.bind, lookahead, h.word, hdeclares, if_true]
  rw [hkind]
  unfold Grammar.functionDeclaration
  rw [bind_of_ok (accept_of_ne (by simp [h.word])), bind_of_ok hkeyword, bind_of_ok hid]

/-- A statement that begins with the head of a function without parameters. -/
lemma statement_of_functionHead (hbound : 0 < g.bound) (hdepth : c.depth < c.limit)
    (h : FunctionWord x t name u x₁ x₂ x₃) {v w : Token} {x₄ x₅ : Cursor} (hv : v.kind = .rParen)
    (h₃ : x₃.next = (.ok v, x₄)) (h₄ : x₄.next = (.ok w, x₅)) :
    g.statement c ⟨t, x₁⟩ =
      (g.functionBody >>= fun body =>
        pure (.functionDeclaration (.identifier "f") false false [] body)) c.deeper ⟨w, x₅⟩ := by
  have hparameters : g.parameters c.deeper ⟨u, x₃⟩ = .ok ([], ⟨w, x₅⟩) := by
    have hloop : loop (Grammar.nextItem .rParen g.parameter) g.bound [] c.deeper ⟨v, x₄⟩ =
        .ok ([], ⟨v, x₄⟩) := by
      obtain ⟨k, hk⟩ := Nat.exists_eq_succ_of_ne_zero (Nat.ne_of_gt hbound)
      rw [hk]
      exact itemsLoop_end hv
    unfold Grammar.parameters
    rw [bind_of_ok (expect_of_next h.opening h₃)]
    unfold Grammar.delimited
    rw [bind_of_ok hloop, bind_of_ok (expect_of_next hv h₄)]
    rfl
  rw [statement_of_functionWord hdepth h, bind_of_ok hparameters]

lemma exists_functionWord (rest : List Char) (hx : x.rest = "function f(".toList ++ rest) :
    ∃ t name u x₁ x₂ x₃, FunctionWord x t name u x₁ x₂ x₃ ∧ x₃.rest = rest := by
  obtain ⟨t, x₁, ht, hkt, -, hx₁⟩ := exists_next .kwFunction _ hx rfl (by simp)
  obtain ⟨name, x₂, hname, hkname, htext, hx₂⟩ :=
    exists_next_space .identifier ('f' :: '(' :: rest) hx₁ rfl (by simp)
  obtain ⟨u, x₃, hu, hku, -, hx₃⟩ :=
    exists_next .lParen ('(' :: rest) hx₂ rfl (by simp)
  exact ⟨t, name, u, x₁, x₂, x₃, ⟨ht, hname, hu, hkt, hkname, htext, hku⟩, hx₃⟩

/-- The tokens in front of a source in a function. -/
lemma exists_functionHead {rest : List Char} (hx : x.rest = "function f()\x7b\n".toList ++ rest) :
    ∃ t name u v w x₁ x₂ x₃ x₄ x₅, FunctionWord x t name u x₁ x₂ x₃ ∧
      x₃.next = (.ok v, x₄) ∧ x₄.next = (.ok w, x₅) ∧ v.kind = .rParen ∧ w.kind = .lBrace ∧
        x₅.rest = '\n' :: rest := by
  obtain ⟨t, name, u, x₁, x₂, x₃, hword, hx₃⟩ :=
    exists_functionWord (')' :: '\x7b' :: '\n' :: rest) hx
  obtain ⟨v, x₄, hv, hkv, -, hx₄⟩ := exists_next .rParen _ hx₃ rfl (by simp)
  obtain ⟨w, x₅, hw, hkw, -, hx₅⟩ :=
    exists_next .lBrace ('\x7b' :: '\n' :: rest) hx₄ rfl (by simp)
  exact ⟨t, name, u, v, w, x₁, x₂, x₃, x₄, x₅, hword, hv, hw, hkv, hkw, hx₅⟩

end FunctionWord

/-- A source is accepted as the body of a function if its program is read in a function. -/
theorem parse_inFunctionBody_iff {k : Nat} (hk : source.toList.length + 16 ≤ k) :
    parse (inFunctionBody source) (limit + 1) = .ok (.program
        [.functionDeclaration (.identifier "f") false false [] (.blockStatement body)]) ↔
      ∃ token after r, (Cursor.ofSource source).next = (.ok token, after) ∧
        (Grammar.upTo k).program ⟨limit, 0, true⟩ ⟨token, after⟩ = .ok (.program body, r) := by
  have htext : (inFunctionBody source).toList =
      "function f()\x7b\n".toList ++ (source.toList ++ (Closer.brace []).text) := by
    change ("function f()\x7b\n" ++ source ++ "\n\x7d").toList = _
    rw [String.toList_append, String.toList_append, List.append_assoc]
    rfl
  obtain ⟨j, rfl⟩ := Nat.exists_eq_add_of_le' (show 1 ≤ k by omega)
  have hlength : (inFunctionBody source).toList.length < j + 2 := by
    rw [htext, List.length_append, List.length_append]
    change 14 + (source.toList.length + 2) < j + 2
    omega
  obtain ⟨t, name, u, v, w, x₁, x₂, x₃, x₄, x₅, hword, h₃, h₄, hv, hw, hrest⟩ :=
    exists_functionHead (x := .ofSource (inFunctionBody source)) htext
  have hstatement := statement_of_functionHead (g := .upTo (j + 1)) (c := ⟨limit + 1, 0, false⟩)
    (Nat.succ_pos j) (Nat.succ_pos limit) hword hv h₃ h₄
  rw [parse_singleton_iff hlength hword.first (by simp [hword.word]), hstatement,
    ← block_iff_program (c := ⟨limit, 0, true⟩) (d := ⟨limit + 1, 1, true⟩) (by omega)
      ⟨rfl, rfl⟩ hw hrest]
  constructor
  · rintro ⟨s, hrun, hend⟩
    obtain ⟨found, s', hblock, hpure⟩ := bind_eq_ok.1 hrun
    obtain ⟨hfound, rfl⟩ := pure_eq_ok.1 hpure
    cases hfound
    exact ⟨s', hblock, hend⟩
  · rintro ⟨s, hblock, hend⟩
    have hbody : (Grammar.upTo (j + 1)).functionBody ⟨limit + 1, 1, false⟩ ⟨w, x₅⟩ =
        .ok (.blockStatement body, s) := hblock
    exact ⟨s, bind_of_ok hbody, hend⟩

end Sources

/-- Tokens that a source is read as, up to its end. -/
def ReadsAs (source : String) (ts : List Token) : Prop :=
  ∃ token after last, (Cursor.ofSource source).next = (.ok token, after) ∧
    Passes ⟨token, after⟩ ts last ∧ last.lookahead.kind = .endOfFile

/-- The word of the first free `return` of a source, which has some statements if a `return` may
stand everywhere. -/
def FirstFreeReturn (source : String) (limit : Nat) (body : List Node) (t : Token) : Prop :=
  ∃ ts rs, ReadsAs source ts ∧
    FreeReturns ⟨limit, 0, false⟩ (.row none .statement body) ts (t :: rs)

/-- All tokens that are read in a source stand there, apart from the texts of templates. -/
lemma Follows.stands {source : String} {r s : Reading} {ts : List Token} (h : Follows r ts s)
    (hr : r.InTemplate source) {t : Token} (ht : t ∈ ts) :
    t.Stands source ∨ t.kind = .templateString ∨ t.kind = .dollarBrace := by
  induction h with
  | refl => cases ht
  | next hnext _ ih =>
    rcases List.mem_cons.1 ht with rfl | ht
    · exact hr.piece
    · have hin := hr.cursor.next hnext
      exact ih ⟨Or.inl hin.token, hin.cursor⟩ ht
  | piece _ ih =>
    rcases List.mem_cons.1 ht with rfl | ht
    · exact hr.piece
    · exact ih hr.cursor.nextTemplate ht

/-- The span of a token covers its text. -/
lemma Token.Stands.text_span {source : String} {t : Token} (h : t.Stands source)
    (hsize : source.utf8ByteSize < UInt32.size) (hkind : t.kind ≠ .endOfFile) :
    t.span.text source = t.text := by
  cases h with
  | done => exact absurd rfl hkind
  | @lexeme cursor kind n hin hrest hrule =>
    obtain ⟨before, hsource, hoffset⟩ := hin
    have hcut : source.toList = before ++ cursor.rest.take n ++ cursor.rest.drop n := by
      rw [List.append_assoc, List.take_append_drop]
      exact hsource
    change (Span.ofOffsets cursor.offset (cursor.skip n).offset).text source = _
    rw [Cursor.skip_offset, hoffset]
    exact Span.text_ofOffsets hcut hsize

/-- The word of the first free `return` is a `return` of the source. -/
lemma FirstFreeReturn.text_span {source : String} {limit : Nat} {body : List Node} {t : Token}
    (h : FirstFreeReturn source limit body t) (hsize : source.utf8ByteSize < UInt32.size) :
    t.span.text source = "return" := by
  obtain ⟨ts, rs, ⟨token, after, last, hnext, hpass, -⟩, hfree⟩ := h
  obtain ⟨hsublist, hreturn⟩ := hfree.words
  obtain ⟨hkind, hspells⟩ := hreturn t List.mem_cons_self
  have hin := (Cursor.In.ofSource source).next hnext
  have hstands : t.Stands source := by
    rcases hpass.follows.stands ⟨Or.inl hin.token, hin.cursor⟩
      (hsublist.subset List.mem_cons_self) with hstands | htext | hinsertion
    · exact hstands
    · simp [hkind] at htext
    · simp [hkind] at hinsertion
  rw [hstands.text_span hsize (by simp [hkind])]
  exact List.mem_singleton.1 (mem_of_wholeWord ["return"] (by decide) rfl hspells)

/-- Whether a `return` may stand somewhere is decided by the functions around it alone. What is
accepted by itself has no free `return` and is accepted in a block and in a function. What is
accepted in a function is accepted by itself if it has no free `return`, and is refused at the first
one otherwise. -/
theorem returns_are_lexical (source : String) (limit : Nat) (body : List Node) :
    (parse source limit = .ok (.program body) →
      (∀ node ∈ body, node.freeReturns = 0) ∧
      parse (inBraces source) (limit + 1) = .ok (.program [.blockStatement body]) ∧
      parse (inFunctionBody source) (limit + 1) = .ok (.program
        [.functionDeclaration (.identifier "f") false false [] (.blockStatement body)])) ∧
    (parse (inFunctionBody source) (limit + 1) = .ok (.program
        [.functionDeclaration (.identifier "f") false false [] (.blockStatement body)]) →
      ((∀ node ∈ body, node.freeReturns = 0) → parse source limit = .ok (.program body)) ∧
      ((∃ node ∈ body, node.freeReturns ≠ 0) → ∃ t, FirstFreeReturn source limit body t ∧
        (source.utf8ByteSize < UInt32.size → t.span.text source = "return") ∧
        parse source limit = .error (.returnOutsideFunction t.span))) := by
  have hk : source.toList.length < source.toList.length + 16 := by omega
  -- the program by itself, and beside it the same program in a function
  have hexposed : ∀ {token after}, (Cursor.ofSource source).next = (.ok token, after) →
      Exposed ⟨token, after⟩ _
        ((Grammar.upTo (source.toList.length + 16)).program ⟨limit, 0, false⟩ ⟨token, after⟩)
        ((Grammar.upTo (source.toList.length + 16)).program ⟨limit, 0, true⟩ ⟨token, after⟩) :=
    fun hnext => program_exposes _ rfl (Cursor.lexical_of_next hnext)
  constructor
  · intro h
    obtain ⟨token, after, r, hnext, hrun⟩ := (parse_eq_ok_iff hk).1 h
    have hout := hexposed hnext
    rw [hrun] at hout
    generalize hinside : (Grammar.upTo _).program ⟨limit, 0, true⟩ _ = y at hout
    cases hout with
    | ok hpass hfree =>
      obtain ⟨found, hfound, hfree⟩ := hfree
      cases hfound
      exact ⟨(hfree.eq_nil_iff rfl).1 rfl, parse_inBraces_iff.2 h,
        (parse_inFunctionBody_iff (Nat.le_refl _)).2 ⟨token, after, r, hnext, hinside⟩⟩
  · intro h
    obtain ⟨token, after, r, hnext, hrun⟩ := (parse_inFunctionBody_iff (Nat.le_refl _)).1 h
    have hout := hexposed hnext
    rw [hrun] at hout
    generalize hself : (Grammar.upTo _).program ⟨limit, 0, false⟩ _ = x at hout
    cases hout with
    | ok hpass hfree =>
      obtain ⟨found, hfound, hfree⟩ := hfree
      cases hfound
      refine ⟨fun _ => (parse_eq_ok_iff hk).2 ⟨token, after, r, hnext, hself⟩, ?_⟩
      rintro ⟨node, hnode, hne⟩
      exact absurd ((hfree.eq_nil_iff rfl).1 rfl node hnode) hne
    | @free _ _ ts rs t hpass hfree =>
      obtain ⟨found, hfound, hfree⟩ := hfree
      cases hfound
      refine ⟨fun hnone => absurd ((hfree.eq_nil_iff rfl).2 hnone) (List.cons_ne_nil t rs), ?_⟩
      intro _
      have hfirst : FirstFreeReturn source limit body t :=
        ⟨ts, rs, ⟨token, after, r, hnext, hpass, program_at_end hrun⟩, hfree⟩
      exact ⟨t, hfirst, hfirst.text_span,
        parse_of_rejected hnext ((programOf_eq hk hnext).trans hself)⟩

/-- A source that is a function with statements that pass a test. -/
lemma exists_functionBody {source : String} {limit : Nat} {test : List Node → Bool}
    (h : (parse source limit).toOption.any (fun tree => match tree with
      | .program [.functionDeclaration (.identifier "f") false false [] (.blockStatement body)] =>
        test body
      | _ => false) = true) :
    ∃ body, parse source limit = .ok (.program
      [.functionDeclaration (.identifier "f") false false [] (.blockStatement body)]) ∧
        test body = true := by
  obtain ⟨tree, hparse, htest⟩ := exists_ok_of_test h
  split at htest
  next body => exact ⟨body, hparse, htest⟩
  next => cases htest

theorem return_in_loop_is_free :
    ∃ body, parse (inFunctionBody "g = () => \x7breturn 1\x7d; while (a) return g") 8 =
        .ok (.program
          [.functionDeclaration (.identifier "f") false false [] (.blockStatement body)]) ∧
      body.map Node.freeReturns = [0, 1] ∧
      ∃ t, FirstFreeReturn "g = () => \x7breturn 1\x7d; while (a) return g" 7 body t ∧
        t.span = ⟨32, 38⟩ ∧
        parse "g = () => \x7breturn 1\x7d; while (a) return g" 7 =
          .error (.returnOutsideFunction t.span) := by
  obtain ⟨body, hbody, htest⟩ := @exists_functionBody
    (inFunctionBody "g = () => \x7breturn 1\x7d; while (a) return g") 8
    (fun body => body.map Node.freeReturns == [0, 1]) (by decide +kernel)
  have hcounts : body.map Node.freeReturns = [0, 1] := beq_iff_eq.1 htest
  have hself : parse "g = () => \x7breturn 1\x7d; while (a) return g" 7 =
      .error (.returnOutsideFunction ⟨32, 38⟩) :=
    eq_error_of_test (by decide +kernel)
  have hfree : ∃ node ∈ body, node.freeReturns ≠ 0 := by
    have hone : 1 ∈ body.map Node.freeReturns := by simp [hcounts]
    obtain ⟨node, hnode, hreturns⟩ := List.mem_map.1 hone
    exact ⟨node, hnode, by simp [hreturns]⟩
  obtain ⟨t, hfirst, -, hparse⟩ := ((returns_are_lexical _ 7 body).2 hbody).2 hfree
  have hspan : t.span = ⟨32, 38⟩ := by
    rw [hself] at hparse
    exact (SyntaxError.returnOutsideFunction.inj (Except.error.inj hparse)).symm
  exact ⟨body, hbody, hcounts, t, hfirst, hspan, hparse⟩

end ScriptTree
