import ScriptTree.Proofs.Accepted
import ScriptTree.Proofs.Alone
import ScriptTree.Proofs.Seam
import ScriptTree.Proofs.Threshold

/-!
# Templates are read back

A template is written from texts and from the sources of the expressions between them. It is read as
these texts and expressions again: an insertion is read as its source is in parentheses, up to the
brace on the line behind it, and text is free up to what ends it. Only text that begins with a brace
is taken for the end of an insertion, and refused.

Main statement: `parse_template`.
-/

namespace ScriptTree

open ScriptTree.Parser

/-- Text that neither ends a template nor begins an insertion: a backslash keeps the character
behind it from doing so. -/
def IsTemplateText : List Char → Bool
  | [] => true
  | '\x60' :: _ => false
  | '$' :: '\x7b' :: _ => false
  | '\\' :: [] => false
  | '\\' :: _ :: cs => IsTemplateText cs
  | _ :: cs => IsTemplateText cs

/-- An inserted expression and the text behind it. -/
structure Insertion where
  source : String
  expression : Node
  text : String

namespace Insertion

/-- An inserted expression as it is written, on a line of its own. -/
def lead (i : Insertion) : String :=
  "$\x7b\n" ++ i.source ++ "\n\x7d"

/-- The source in parentheses. -/
def inParentheses (i : Insertion) : String :=
  "(\n" ++ i.source ++ "\n)"

end Insertion

/-- The texts of a template, each with what stands between it and the text in front of it. -/
def templatePieces (first : String) (insertions : List Insertion) : List (String × String) :=
  ("`", first) :: insertions.map fun i => (i.lead, i.text)

/-- Pieces one behind the other. -/
def writtenPieces : List (String × String) → String
  | [] => ""
  | (lead, text) :: pieces => lead ++ text ++ writtenPieces pieces

/-- The source of a template. -/
def templateSource (first : String) (insertions : List Insertion) : String :=
  writtenPieces (templatePieces first insertions) ++ "`"

/-- Whether text begins with a brace that would close an insertion. -/
def beginsWithBrace (text : String) : Bool :=
  text.toList.head? == some '}'

/-- What stands behind a text of a template. -/
def behindText : List Insertion → List Char
  | [] => ['\x60']
  | i :: insertions => '$' :: '\x7b' :: '\n' :: (i.source.toList ++
      '\n' :: '\x7d' :: (i.text.toList ++ behindText insertions))

lemma writtenPieces_append (before after : List (String × String)) :
    writtenPieces (before ++ after) = writtenPieces before ++ writtenPieces after := by
  induction before with
  | nil => simp [writtenPieces]
  | cons piece before ih => simp [writtenPieces, ih, String.append_assoc]

lemma toList_writtenPieces (insertions : List Insertion) :
    (writtenPieces (insertions.map fun i => (i.lead, i.text))).toList ++ ['\x60'] =
      behindText insertions := by
  induction insertions with
  | nil => rfl
  | cons i insertions ih =>
    simp [writtenPieces, Insertion.lead, behindText, ← ih]

lemma toList_templateSource (first : String) (insertions : List Insertion) :
    (templateSource first insertions).toList =
      '\x60' :: (first.toList ++ behindText insertions) := by
  simp [templateSource, templatePieces, writtenPieces, ← toList_writtenPieces]

/-- Template text runs to what ends it. -/
lemma templateLength_of_text {cs : List Char} (h : IsTemplateText cs = true)
    (insertions : List Insertion) : templateLength (cs ++ behindText insertions) = cs.length := by
  have hbrace : ∀ tail, behindText insertions ≠ '\x7b' :: tail := by
    cases insertions <;> simp [behindText]
  fun_induction IsTemplateText cs with
  | case1 => cases insertions <;> rfl
  | case2 => cases h
  | case3 => cases h
  | case4 => cases h
  | case5 c cs ih => rw [List.cons_append, List.cons_append, templateLength.eq_4, ih h]; rfl
  | case6 c cs htick hdollar hend hescape ih =>
    have hback : c ≠ '\\' := by
      rintro rfl
      cases cs with
      | nil => exact hend rfl rfl
      | cons d cs => exact hescape d cs rfl rfl
    rw [List.cons_append, templateLength.eq_5 _ _ htick, ih h]
    · rfl
    · intro tail hc htail
      cases cs with
      | nil => exact hbrace tail htail
      | cons d cs =>
        cases htail
        exact hdollar cs hc rfl
    · exact fun _ _ hc => absurd hc hback

section Pieces

variable {cursor : Cursor} {text : String} {insertions : List Insertion}

lemma exists_front (insertions : List Insertion) (htext : IsTemplateText text.toList = true)
    (hbrace : beginsWithBrace text = false) (hne : text.toList ≠ [] ∨ insertions ≠ []) :
    ∃ c cs, text.toList ++ behindText insertions = c :: cs ∧ c ≠ '\x60' ∧ c ≠ '\x7d' := by
  rcases hcs : text.toList with _ | ⟨c, cs⟩
  · rcases insertions with _ | ⟨i, insertions⟩
    · simp [hcs] at hne
    · exact ⟨_, _, rfl, by decide, by decide⟩
  · refine ⟨c, cs ++ behindText insertions, rfl, ?_, ?_⟩
    · rintro rfl
      rw [hcs] at htext
      cases htext
    · rintro rfl
      simp [beginsWithBrace, hcs] at hbrace

lemma nextTemplate_insertion {i : Insertion}
    (hrest : cursor.rest = text.toList ++ behindText (i :: insertions))
    (htext : IsTemplateText text.toList = true) (hbrace : beginsWithBrace text = false) :
    cursor.nextTemplate = (cursor.token .dollarBrace text.toList.length,
      cursor.skip (text.toList.length + 1)) := by
  obtain ⟨c, cs, hfront, htick, hclose⟩ := exists_front (i :: insertions) htext hbrace
    (Or.inr (List.cons_ne_nil _ _))
  have hlength : templateLength cursor.rest = text.toList.length := by
    rw [hrest, templateLength_of_text htext]
  have hdrop : cursor.rest.drop (templateLength cursor.rest) = behindText (i :: insertions) := by
    rw [hlength, hrest, List.drop_left]
  rw [Cursor.nextTemplate_of_insertion (hrest.trans hfront) htick hclose hdrop, hlength]

lemma nextTemplate_last (hrest : cursor.rest = text.toList ++ behindText [])
    (htext : IsTemplateText text.toList = true) (hbrace : beginsWithBrace text = false)
    (hne : text.toList ≠ []) :
    cursor.nextTemplate = (cursor.token .templateString text.toList.length,
      cursor.skip text.toList.length) := by
  obtain ⟨c, cs, hfront, htick, hclose⟩ := exists_front [] htext hbrace (Or.inl hne)
  have hlength : templateLength cursor.rest = text.toList.length := by
    rw [hrest, templateLength_of_text htext]
  have hdrop : cursor.rest.drop (templateLength cursor.rest) = behindText [] := by
    rw [hlength, hrest, List.drop_left]
  rw [Cursor.nextTemplate_of_plain (hrest.trans hfront) htick hclose, hlength]
  intro tail
  rw [hdrop]
  simp [behindText]

end Pieces

/-! ### Insertions -/

namespace Cursor

/-- How far the source reaches, as a cursor tells it. -/
def total (cursor : Cursor) : Nat :=
  cursor.offset + byteLength cursor.rest

lemma total_skip (cursor : Cursor) (n : Nat) : (cursor.skip n).total = cursor.total := by
  have hsplit := congrArg byteLength (List.take_append_drop n cursor.rest)
  rw [byteLength_append] at hsplit
  unfold total
  rw [skip_offset, skip_rest]
  omega

lemma total_next {cursor after : Cursor} {token : Token} (h : cursor.next = (.ok token, after)) :
    after.total = cursor.total := by
  obtain ⟨gap, start, hrest, hoffset, -, hmeets⟩ := cursor.next_meets
  have hstart : start.total = cursor.total := by
    unfold total
    rw [hoffset, hrest, byteLength_append, Nat.add_assoc]
  rw [h] at hmeets
  cases hmeets with
  | done => exact hstart
  | lexeme => exact (total_skip start _).trans hstart

lemma total_nextTemplate (cursor : Cursor) : cursor.nextTemplate.2.total = cursor.total := by
  unfold nextTemplate
  split
  next => rfl
  next => exact total_skip cursor 1
  next => exact total_skip cursor 1
  next =>
    dsimp only
    split
    next => exact total_skip cursor _
    next => exact total_skip cursor _

end Cursor

lemma Follows.total_eq {r s : Reading} {ts : List Token} (h : Follows r ts s) :
    s.cursor.total = r.cursor.total := by
  induction h with
  | refl => rfl
  | next h _ ih => exact ih.trans (Cursor.total_next h)
  | @piece r _ _ _ ih => exact ih.trans r.cursor.total_nextTemplate

section Parentheses

variable {g : Grammar} {c : Context} {r s : Reading} {e : Node}

lemma arrowFunction_isParenthesized {params : List Node} {isAsync : Bool} {n : Node}
    (h : g.arrowFunction params isAsync c r = .ok (n, s)) : n.isParenthesized = false := by
  unfold Grammar.arrowFunction at h
  obtain ⟨t, u, -, hrest⟩ := bind_eq_ok.1 h
  obtain ⟨body, v, -, hpure⟩ := bind_eq_ok.1 hrest
  cases hpure
  rfl

lemma parenthesized_eq_ok (h : g.parenthesized c r = .ok (.parenthesizedExpression e, s)) :
    ∃ token after u, r.cursor.next = (.ok token, after) ∧
      g.parse .sequence c ⟨token, after⟩ = .ok (e, u) ∧ u.lookahead.kind = .rParen ∧
      u.cursor.next = (.ok s.lookahead, s.cursor) := by
  unfold Grammar.parenthesized at h
  obtain ⟨opening, r₁, hopen, h⟩ := bind_eq_ok.1 h
  obtain ⟨-, token, after, hnext, rfl⟩ := expect_eq_ok hopen
  obtain ⟨b, r₂, haccept, h⟩ := bind_eq_ok.1 h
  cases b with
  | true =>
    obtain ⟨b, r₃, -, h⟩ := bind_eq_ok.1 h
    cases b with
    | true =>
      have hother := arrowFunction_isParenthesized h
      cases hother
    | false => cases h
  | false =>
    rcases accept_eq_ok haccept with ⟨-, rfl⟩ | ⟨hfalse, -⟩
    · obtain ⟨body, u, hbody, h⟩ := bind_eq_ok.1 h
      obtain ⟨closing, r₃, hclose, h⟩ := bind_eq_ok.1 h
      obtain ⟨hkind, last, after', hlast, rfl⟩ := expect_eq_ok hclose
      change Succeeds (if (last.kind == .arrow) = true then _ else _) c ⟨last, after'⟩ _ s at h
      split at h
      next =>
        split at h
        next =>
          have hother := arrowFunction_isParenthesized h
          cases hother
        next => cases h
      next =>
        cases h
        exact ⟨token, after, u, hnext, hbody, hkind, hlast⟩
    · cases hfalse

end Parentheses

namespace Closer

variable {z : Closer} {r s : Reading}

/-- A reading in front of the bracket or further to the front is not at the end. -/
lemma At.second_ne (h : z.At r s) : s.lookahead.kind ≠ .endOfFile := by
  cases h with
  | along h => exact Made.kind_eq h.lexeme ▸ h.kind_ne
  | behind h =>
    rw [h.bracket]
    rcases z.kind_cases with hkind | hkind <;> simp [hkind]

/-- Behind a token of the text there is at least the bracket. -/
lemma Along.next_ne (h : z.Along r s) {token : Token} {after : Cursor}
    (hnext : s.cursor.next = (.ok token, after)) : token.kind ≠ .endOfFile := by
  have hheads := h.next
  rw [hnext] at hheads
  obtain ⟨_, _, -, hat⟩ := hheads.first
  exact hat.second_ne

lemma At.next_ne (h : z.At r s) (hkind : s.lookahead.kind ≠ z.kind) {token : Token} {after : Cursor}
    (hnext : s.cursor.next = (.ok token, after)) : token.kind ≠ .endOfFile := by
  cases h with
  | along h => exact h.next_ne hnext
  | behind h => exact absurd h.bracket hkind

/-- A parenthesis behind a text. -/
def parenthesis : Closer :=
  ⟨.rParen, ')', [], Or.inr ⟨rfl, rfl⟩⟩

/-- A brace behind a text, with a tail. -/
def brace (tail : List Char) : Closer :=
  ⟨.rBrace, '}', tail, Or.inl ⟨rfl, rfl⟩⟩

end Closer

/-- The source of an insertion is read by itself as the expression, up to its end. -/
def Insertion.Reads (k N : Nat) (i : Insertion) : Prop :=
  ∃ token after s, (⟨0, i.source.toList⟩ : Cursor).next = (.ok token, after) ∧
    Grammar.run k .sequence ⟨N, 2, false⟩ ⟨token, after⟩ = .ok (i.expression, s) ∧
    s.lookahead.kind = .endOfFile

/-- An expression in parentheses that is a whole source. -/
lemma parenthesized_of_parse {source : String} {limit k : Nat} {n : Node} {t : Token} {x : Cursor}
    (hpos : 0 < k) (hk : source.toList.length ≤ k) (hn : n.isBare = true)
    (hnext : (Cursor.ofSource source).next = (.ok t, x)) (ht : t.kind = .lParen)
    (h : parse source limit = .ok (.program [n])) :
    1 < limit ∧ ∃ s, (Grammar.upTo k).parenthesized ⟨limit, 2, false⟩ ⟨t, x⟩ = .ok (n, s) ∧
      (s.lookahead.kind = .endOfFile ∨ s.lookahead.kind = .semicolon ∧
        ∃ token after, s.cursor.next = (.ok token, after) ∧ token.kind = .endOfFile) := by
  obtain ⟨token, after, last, hfirst, hrun⟩ := (parse_eq_ok_iff (Nat.lt_succ_of_le hk)).1 h
  cases hnext.symm.trans hfirst
  have hopens : t.kind.opensPrimary = true := by
    rw [ht]
    rfl
  have hdepth := lt_limit_of_program hpos (r := ⟨t, x⟩) hopens hrun
  obtain ⟨s, hprimary, hend⟩ := primary_of_program hpos hdepth hopens hn hrun
  exact ⟨hdepth, s, (primary_of_lParen ht).symm.trans hprimary, hend⟩

/-- The expression in parentheses is the whole source of the insertion. -/
lemma Insertion.reads_of_parse {k N : Nat} {i : Insertion}
    (hk : i.source.toList.length + 4 ≤ k)
    (h : parse i.inParentheses N = .ok (.program [.parenthesizedExpression i.expression])) :
    i.Reads k N := by
  have hsource : i.inParentheses.toList =
      '(' :: '\n' :: (i.source.toList ++ Closer.parenthesis.text) := by
    simp [inParentheses, Closer.text, Closer.parenthesis]
  have hlength : i.inParentheses.toList.length ≤ k := by
    simp only [hsource, Closer.text, Closer.parenthesis, List.length_cons, List.length_append,
      List.length_nil]
    omega
  obtain ⟨token, after, hnext, hkind, -, hrest⟩ := exists_next .lParen
    (x := .ofSource i.inParentheses) _ hsource rfl (List.cons_ne_nil _ _)
  obtain ⟨-, s, hparenthesized, hend⟩ :=
    parenthesized_of_parse (by omega) hlength rfl hnext hkind h
  obtain ⟨first, after', u, hfirst, hbody, hclose, hlast⟩ := parenthesized_eq_ok hparenthesized
  have hheads : Closer.parenthesis.Heads (⟨0, i.source.toList⟩ : Cursor).next after.next :=
    Closer.next_line hrest (Or.inl List.not_mem_nil)
  rw [hfirst] at hheads
  obtain ⟨token', after'', hsolo, hat⟩ := hheads.first
  have hjoins := Closer.run_join (z := .parenthesis) k .sequence ⟨N, 2, false⟩ ⟨N, 2, false⟩ _ _
    ⟨rfl, rfl⟩ hat (by simp)
  change Grammar.run k .sequence ⟨N, 2, false⟩ ⟨first, after'⟩ = _ at hbody
  rw [hbody] at hjoins
  generalize hfound : Grammar.run k .sequence ⟨N, 2, false⟩ ⟨token', after''⟩ = x at hjoins
  cases hjoins with
  | @ok e v w hat =>
    refine ⟨token', after'', v, hsolo, hfound, ?_⟩
    cases hat with
    | behind h => exact h.kind
    | along h =>
      -- a parenthesis of the source itself would leave the one behind it
      rcases hend with hend | ⟨hsemicolon, token, after, hnext, hend⟩
      · exact absurd hend (h.next_ne hlast)
      · have hheads := h.next
        rw [hlast] at hheads
        obtain ⟨_, _, -, hat⟩ := hheads.first
        have hother : s.lookahead.kind ≠ Closer.parenthesis.kind := by
          rw [hsemicolon]
          decide
        exact absurd hend (hat.next_ne hother hnext)
  | past hahead =>
    have hend := (hahead rfl).1
    rw [hclose] at hend
    cases hend

section Parts

variable {k N : Nat} {cursor : Cursor} {text : String} {i : Insertion} {insertions : List Insertion}
  (bound : Nat) (parts : TemplateParts)

lemma token_text {kind : Kind} {rest : List Char} (hrest : cursor.rest = text.toList ++ rest) :
    (cursor.token kind text.toList.length).text = text := by
  simp [Cursor.token, hrest]

/-- An insertion is read as its source is, and the text behind it comes next. -/
lemma templateLoop_reads_insertion (hi : i.Reads k N) (hplain : ¬['/', '*'] <:+: i.source.toList)
    (hrest : cursor.rest = text.toList ++ behindText (i :: insertions))
    (htext : IsTemplateText text.toList = true) (hbrace : beginsWithBrace text = false) :
    ∃ next : Cursor, next.rest = i.text.toList ++ behindText insertions ∧
      next.total = cursor.total ∧
      loop (Grammar.upTo k).templatePart (bound + 1) parts ⟨N, 2, false⟩
          ⟨cursor.nextTemplate.1, cursor.nextTemplate.2⟩ =
        loop (Grammar.upTo k).templatePart bound
          ((parts.addText text).addExpression i.expression) ⟨N, 2, false⟩
          ⟨next.nextTemplate.1, next.nextTemplate.2⟩ := by
  obtain ⟨token, after, s, hsolo, hrun, hend⟩ := hi
  rw [nextTemplate_insertion hrest htext hbrace, templateLoop_insertion bound parts rfl]
  -- the brace behind the dollar sign, then the expression in front of a brace of its own
  generalize hz : Closer.brace (i.text.toList ++ behindText insertions) = z
  have hopening : (cursor.skip (text.toList.length + 1)).rest =
      '\x7b' :: '\n' :: (i.source.toList ++ z.text) := by
    rw [Cursor.skip_rest, hrest, List.drop_length_add_append, ← hz]
    rfl
  have htotal := cursor.total_skip (text.toList.length + 1)
  generalize cursor.skip (text.toList.length + 1) = opening at hopening htotal
  obtain ⟨brace, inner, hbracket, hkind, -, hinner⟩ :=
    exists_next .lBrace _ hopening rfl (List.cons_ne_nil _ _)
  have hheads : z.Heads (⟨0, i.source.toList⟩ : Cursor).next inner.next :=
    Closer.next_line hinner (Or.inr hplain)
  rw [hsolo] at hheads
  obtain ⟨u, y, hfirst, hat⟩ := hheads.second
  have hjoins := Closer.run_join (z := z) k .sequence ⟨N, 2, false⟩ ⟨N, 2, false⟩ _ _
    ⟨rfl, rfl⟩ hat (by simp)
  rw [hrun] at hjoins
  generalize hsecond : Grammar.run k .sequence ⟨N, 2, false⟩ ⟨u, y⟩ = x at hjoins
  cases hjoins with
  | @ok _ _ w hat =>
    cases hat with
    | along h => exact absurd hend h.kind_ne
    | behind h =>
      obtain ⟨ts, hpass, -⟩ := upTo_faithful k .sequence ⟨N, 2, false⟩ ⟨u, y⟩
        (Cursor.lexical_of_next hfirst) _ _ hsecond
      refine ⟨w.cursor, ?_, ?_, ?_⟩
      · rw [h.tail, ← hz]
        rfl
      · rw [hpass.follows.total_eq]
        exact (Cursor.total_next hfirst).trans ((Cursor.total_next hbracket).trans htotal)
      · have hclose : w.lookahead.kind = .rBrace := by
          rw [h.bracket, ← hz]
          rfl
        have hadvance : advance ⟨N, 2, false⟩
            ⟨cursor.token .dollarBrace text.toList.length, opening⟩ = .ok _ :=
          advance_of_next hbracket
        have hexpect : expect .lBrace ⟨N, 2, false⟩ ⟨brace, inner⟩ = .ok _ :=
          expect_of_next hkind hfirst
        rw [bind_of_ok hadvance, bind_of_ok hexpect]
        change (Grammar.run k .sequence >>= _) ⟨N, 2, false⟩ ⟨u, y⟩ = _
        rw [bind_of_ok hsecond, bind_of_ok (expectInTemplate_of_kind hclose), token_text hrest]

lemma templateLoop_reads_backtick {g : Grammar} {c : Context} (hrest : cursor.rest = ['\x60']) :
    ∃ s, loop g.templatePart (bound + 1) parts c
        ⟨cursor.nextTemplate.1, cursor.nextTemplate.2⟩ = .ok (parts.toNode, s) ∧
      s.lookahead.kind = .endOfFile := by
  have hnil : (cursor.skip 1).rest = [] := by
    rw [Cursor.skip_rest, hrest]
    rfl
  have hadvance : advance c ⟨cursor.token .backtick 1, cursor.skip 1⟩ = .ok _ :=
    advance_of_next (Cursor.next_of_nil hnil)
  rw [Cursor.nextTemplate_of_backtick hrest, templateLoop_end bound parts rfl, bind_of_ok hadvance]
  exact ⟨_, rfl, rfl⟩

/-- The last text and the backtick behind it. -/
lemma templateLoop_reads_last {g : Grammar} {c : Context}
    (hrest : cursor.rest = text.toList ++ behindText [])
    (htext : IsTemplateText text.toList = true) (hbrace : beginsWithBrace text = false)
    (hdue : parts.textDue = true) :
    ∃ s, loop g.templatePart (bound + 2) parts c
        ⟨cursor.nextTemplate.1, cursor.nextTemplate.2⟩ =
          .ok (.templateLiteral parts.expressions.reverse
            (parts.quasis.reverse ++ [.templateElement text]), s) ∧
      s.lookahead.kind = .endOfFile := by
  by_cases hempty : text.toList = []
  · have hend : cursor.rest = ['\x60'] := by
      rw [hrest, hempty]
      rfl
    obtain ⟨s, hs, hkind⟩ := templateLoop_reads_backtick (g := g) (c := c) (bound + 1) parts hend
    have hnone : text = "" := by simpa using hempty
    refine ⟨s, ?_, hkind⟩
    rw [hs]
    simp [TemplateParts.toNode, hdue, TemplateParts.addText, hnone]
  · have hend : (cursor.skip text.toList.length).rest = ['\x60'] := by
      rw [Cursor.skip_rest, hrest, List.drop_left]
      rfl
    obtain ⟨s, hs, hkind⟩ := templateLoop_reads_backtick (g := g) (c := c) bound
      (parts.addText text) hend
    refine ⟨s, ?_, hkind⟩
    rw [nextTemplate_last hrest htext hbrace hempty, templateLoop_text (bound + 1) parts rfl]
    simp only [token_text hrest, hs]
    simp [TemplateParts.toNode, TemplateParts.addText]

/-- Text that begins with a brace is refused there. -/
lemma templateLoop_refuses_brace {g : Grammar} {c : Context} {rest : List Char}
    (hrest : cursor.rest = text.toList ++ rest) (hbrace : beginsWithBrace text = true) :
    loop g.templatePart (bound + 1) parts c ⟨cursor.nextTemplate.1, cursor.nextTemplate.2⟩ =
      .error (.rejected (.tokenMismatch .backtick .rBrace
        (.ofOffsets cursor.offset (cursor.offset + 1)))) := by
  obtain ⟨cs, hcs⟩ : ∃ cs, text.toList = '}' :: cs := by
    have hhead : text.toList.head? = some '}' := by simpa [beginsWithBrace] using hbrace
    rw [List.head?_eq_some_iff] at hhead
    exact hhead
  rw [hcs, List.cons_append] at hrest
  have hoffset : (cursor.skip 1).offset = cursor.offset + 1 := by
    rw [Cursor.skip_offset, hrest]
    rfl
  rw [Cursor.nextTemplate_of_brace hrest, templateLoop_refused bound parts]
  · simp only [Cursor.token, hoffset]
  · simp [Cursor.token]
  · simp [Cursor.token]
  · simp [Cursor.token]

/-- What is asked of the texts and insertions of a template. -/
structure TemplateFits (k N : Nat) (text : String) (insertions : List Insertion) : Prop where
  texts : ∀ t ∈ text :: insertions.map Insertion.text, IsTemplateText t.toList = true
  reads : ∀ i ∈ insertions, i.Reads k N
  plain : ∀ i ∈ insertions, ¬['/', '*'] <:+: i.source.toList

lemma TemplateFits.tail (h : TemplateFits k N text (i :: insertions)) :
    TemplateFits k N i.text insertions where
  texts t ht := h.texts t (List.mem_cons_of_mem text ht)
  reads j hj := h.reads j (List.mem_cons_of_mem i hj)
  plain j hj := h.plain j (List.mem_cons_of_mem i hj)

/-- The parts of a template are read one after the other. -/
theorem templateLoop_reads (h : TemplateFits k N text insertions)
    (hbraces : ∀ t ∈ text :: insertions.map Insertion.text, beginsWithBrace t = false)
    (hrest : cursor.rest = text.toList ++ behindText insertions) (hdue : parts.textDue = true)
    (hbound : insertions.length + 2 ≤ bound) :
    ∃ s, loop (Grammar.upTo k).templatePart bound parts ⟨N, 2, false⟩
        ⟨cursor.nextTemplate.1, cursor.nextTemplate.2⟩ =
          .ok (.templateLiteral (parts.expressions.reverse ++ insertions.map Insertion.expression)
            (parts.quasis.reverse ++
              (text :: insertions.map Insertion.text).map .templateElement), s) ∧
      s.lookahead.kind = .endOfFile := by
  induction insertions generalizing text parts bound cursor with
  | nil =>
    obtain ⟨bound, rfl⟩ := Nat.exists_eq_add_of_le' hbound
    obtain ⟨s, hs, hend⟩ := templateLoop_reads_last (g := .upTo k) (c := ⟨N, 2, false⟩) bound parts
      hrest (h.texts text List.mem_cons_self) (hbraces text List.mem_cons_self) hdue
    exact ⟨s, by simpa using hs, hend⟩
  | cons i insertions ih =>
    obtain ⟨bound, rfl⟩ := Nat.exists_eq_add_of_le' (Nat.le_trans (Nat.le_add_left 1 _) hbound)
    obtain ⟨next, hnext, -, hloop⟩ := templateLoop_reads_insertion bound parts
      (h.reads i List.mem_cons_self) (h.plain i List.mem_cons_self) hrest
      (h.texts text List.mem_cons_self) (hbraces text List.mem_cons_self)
    obtain ⟨s, hs, hend⟩ := ih bound ((parts.addText text).addExpression i.expression) h.tail
      (fun t ht => hbraces t (List.mem_cons_of_mem text ht)) hnext rfl
      (Nat.le_of_succ_le_succ hbound)
    refine ⟨s, ?_, hend⟩
    rw [hloop, hs]
    simp [TemplateParts.addExpression, TemplateParts.addText]

/-- The first text that begins with a brace is refused. -/
theorem templateLoop_refuses {before after : List Insertion}
    (h : TemplateFits k N text (before ++ i :: after))
    (hbraces : ∀ t ∈ text :: before.map Insertion.text, beginsWithBrace t = false)
    (hbrace : beginsWithBrace i.text = true)
    (hrest : cursor.rest = text.toList ++ behindText (before ++ i :: after))
    (hbound : before.length + 2 ≤ bound) :
    loop (Grammar.upTo k).templatePart bound parts ⟨N, 2, false⟩
        ⟨cursor.nextTemplate.1, cursor.nextTemplate.2⟩ =
      .error (.rejected (.tokenMismatch .backtick .rBrace (.ofOffsets
        (cursor.total - byteLength (i.text.toList ++ behindText after))
        (cursor.total - byteLength (i.text.toList ++ behindText after) + 1)))) := by
  induction before generalizing text parts bound cursor with
  | nil =>
    obtain ⟨bound, rfl⟩ := Nat.exists_eq_add_of_le' hbound
    obtain ⟨next, hnext, htotal, hloop⟩ := templateLoop_reads_insertion (bound + 1) parts
      (h.reads i List.mem_cons_self) (h.plain i List.mem_cons_self) hrest
      (h.texts text List.mem_cons_self) (hbraces text List.mem_cons_self)
    have hoffset : cursor.total - byteLength (i.text.toList ++ behindText after) = next.offset := by
      rw [← htotal, Cursor.total, hnext, Nat.add_sub_cancel]
    rw [hoffset]
    exact hloop.trans (templateLoop_refuses_brace bound _ hnext hbrace)
  | cons j before ih =>
    obtain ⟨bound, rfl⟩ := Nat.exists_eq_add_of_le' (Nat.le_trans (Nat.le_add_left 1 _) hbound)
    obtain ⟨next, hnext, htotal, hloop⟩ := templateLoop_reads_insertion bound parts
      (h.reads j List.mem_cons_self) (h.plain j List.mem_cons_self) hrest
      (h.texts text List.mem_cons_self) (hbraces text List.mem_cons_self)
    rw [hloop, ← htotal]
    exact ih bound _ h.tail (fun t ht => hbraces t (List.mem_cons_of_mem text ht)) hnext
      (Nat.le_of_succ_le_succ hbound)

end Parts

/-! ### Whole templates -/

section Sources

variable {N : Nat} {first : String} {insertions : List Insertion}

/-- How many levels of the grammar the source of a template is read with. -/
def templateLevels (first : String) (insertions : List Insertion) : Nat :=
  (templateSource first insertions).toList.length + 1

lemma length_behindText (i : Insertion) (h : i ∈ insertions) :
    i.source.toList.length + 5 ≤ (behindText insertions).length := by
  induction insertions with
  | nil => cases h
  | cons j insertions ih =>
    simp only [behindText, List.length_cons, List.length_append]
    rcases List.mem_cons.1 h with rfl | h
    · omega
    · have hle := ih h
      omega

lemma length_insertions (insertions : List Insertion) :
    insertions.length < (behindText insertions).length := by
  induction insertions with
  | nil => exact Nat.one_pos
  | cons j insertions ih =>
    simp only [behindText, List.length_cons, List.length_append]
    omega

lemma TemplateFits.of_parse
    (htexts : ∀ t ∈ first :: insertions.map Insertion.text, IsTemplateText t.toList = true)
    (hplain : ∀ i ∈ insertions, ¬['/', '*'] <:+: i.source.toList)
    (hparse : ∀ i ∈ insertions,
      parse i.inParentheses N = .ok (.program [.parenthesizedExpression i.expression])) :
    TemplateFits (templateLevels first insertions) N first insertions where
  texts := htexts
  plain := hplain
  reads i hi := by
    apply Insertion.reads_of_parse _ (hparse i hi)
    have hlength := length_behindText i hi
    simp only [templateLevels, toList_templateSource, List.length_cons, List.length_append]
    omega

/-- The place behind the first backtick. -/
def templateStart (first : String) (insertions : List Insertion) : Cursor :=
  (Cursor.ofSource (templateSource first insertions)).skip 1

lemma templateStart_rest (first : String) (insertions : List Insertion) :
    (templateStart first insertions).rest = first.toList ++ behindText insertions := by
  change (templateSource first insertions).toList.drop 1 = _
  rw [toList_templateSource]
  rfl

lemma templateStart_offset (first : String) (insertions : List Insertion) :
    (templateStart first insertions).offset = 1 := by
  change 0 + byteLength ((templateSource first insertions).toList.take 1) = 1
  rw [toList_templateSource]
  rfl

lemma templateStart_total (first : String) (insertions : List Insertion) :
    (templateStart first insertions).total = (templateSource first insertions).utf8ByteSize := by
  rw [templateStart, Cursor.total_skip, ← byteLength_toList]
  exact Nat.zero_add _

lemma next_templateSource :
    (Cursor.ofSource (templateSource first insertions)).next =
      (.ok ((Cursor.ofSource (templateSource first insertions)).token .backtick 1),
        templateStart first insertions) := by
  have hrest : (Cursor.ofSource (templateSource first insertions)).rest =
      '\x60' :: (first.toList ++ behindText insertions) := toList_templateSource first insertions
  apply Cursor.next_of_first?
  · rw [hrest]
    rfl
  · simp [hrest]

/-- A template is read part by part behind its first backtick. -/
lemma primary_template :
    (Grammar.upTo (templateLevels first insertions)).primary ⟨N, 2, false⟩
        ⟨(Cursor.ofSource (templateSource first insertions)).token .backtick 1,
          templateStart first insertions⟩ =
      loop (Grammar.upTo (templateLevels first insertions)).templatePart
        (templateLevels first insertions) ⟨[], [], true⟩ ⟨N, 2, false⟩
        ⟨(templateStart first insertions).nextTemplate.1,
          (templateStart first insertions).nextTemplate.2⟩ := by
  rfl

lemma parse_of_template_ok {n : Node} {s : Reading} (hN : 2 ≤ N)
    (hrun : loop (Grammar.upTo (templateLevels first insertions)).templatePart
        (templateLevels first insertions) ⟨[], [], true⟩ ⟨N, 2, false⟩
        ⟨(templateStart first insertions).nextTemplate.1,
          (templateStart first insertions).nextTemplate.2⟩ = .ok (n, s))
    (hend : s.lookahead.kind = .endOfFile) :
    parse (templateSource first insertions) N = .ok (.program [n]) := by
  rw [← primary_template] at hrun
  exact parse_of_ok next_templateSource
    (program_of_primary (Nat.succ_pos _) (by simp only; omega) rfl hrun hend)

lemma parse_of_template_error {e : SyntaxError} (hN : 2 ≤ N)
    (hrun : loop (Grammar.upTo (templateLevels first insertions)).templatePart
        (templateLevels first insertions) ⟨[], [], true⟩ ⟨N, 2, false⟩
        ⟨(templateStart first insertions).nextTemplate.1,
          (templateStart first insertions).nextTemplate.2⟩ = .error (.rejected e)) :
    parse (templateSource first insertions) N = .error e := by
  rw [← primary_template] at hrun
  exact parse_of_rejected next_templateSource
    (program_of_error (Nat.succ_pos _) (by simp only; omega) rfl hrun)

/-- The source up to a text, and from there on. -/
lemma size_templateSource (first : String) (before : List Insertion) (i : Insertion)
    (after : List Insertion) :
    (templateSource first (before ++ i :: after)).utf8ByteSize =
      (writtenPieces (("`", first) :: before.map fun i => (i.lead, i.text)) ++
        i.lead).utf8ByteSize + byteLength (i.text.toList ++ behindText after) := by
  have hsplit : (templateSource first (before ++ i :: after)).toList =
      (writtenPieces (("`", first) :: before.map fun i => (i.lead, i.text)) ++ i.lead).toList ++
        (i.text.toList ++ behindText after) := by
    simp [templateSource, templatePieces, writtenPieces, writtenPieces_append,
      ← toList_writtenPieces]
  rw [← byteLength_toList, hsplit, byteLength_append, byteLength_toList]

/-- A template is read back as its texts and the expressions between them, unless a text begins with
a brace: then it is refused there, at the first such text. -/
theorem parse_template (hN : 2 ≤ N)
    (htexts : ∀ t ∈ first :: insertions.map Insertion.text, IsTemplateText t.toList = true)
    (hplain : ∀ i ∈ insertions, ¬['/', '*'] <:+: i.source.toList)
    (hparse : ∀ i ∈ insertions,
      parse i.inParentheses N = .ok (.program [.parenthesizedExpression i.expression])) :
    ((∀ t ∈ first :: insertions.map Insertion.text, beginsWithBrace t = false) →
      parse (templateSource first insertions) N = .ok (.program [.templateLiteral
        (insertions.map Insertion.expression)
        ((first :: insertions.map Insertion.text).map .templateElement)])) ∧
    ∀ before lead text after,
      templatePieces first insertions = before ++ (lead, text) :: after →
      (∀ piece ∈ before, beginsWithBrace piece.2 = false) → beginsWithBrace text = true →
      parse (templateSource first insertions) N = .error (.tokenMismatch .backtick .rBrace
        (.ofOffsets (writtenPieces before ++ lead).utf8ByteSize
          ((writtenPieces before ++ lead).utf8ByteSize + 1))) := by
  have hfits := TemplateFits.of_parse htexts hplain hparse
  have hcount := length_insertions insertions
  have hbound : insertions.length + 2 ≤ templateLevels first insertions := by
    simp only [templateLevels, toList_templateSource, List.length_cons, List.length_append]
    omega
  have hrest := templateStart_rest first insertions
  constructor
  · intro hbraces
    obtain ⟨s, hs, hend⟩ := templateLoop_reads (templateLevels first insertions) ⟨[], [], true⟩
      hfits hbraces hrest rfl hbound
    exact parse_of_template_ok hN hs hend
  · intro before lead text after hpieces hbefore hbrace
    apply parse_of_template_error hN
    cases before with
    | nil =>
      obtain ⟨⟨rfl, rfl⟩, -⟩ : ("`" = lead ∧ first = text) ∧ _ := by
        simpa [templatePieces] using hpieces
      have hrun := templateLoop_refuses_brace (g := .upTo (templateLevels first insertions))
        (c := ⟨N, 2, false⟩) (templateSource first insertions).toList.length ⟨[], [], true⟩ hrest
        hbrace
      rw [templateStart_offset] at hrun
      exact hrun
    | cons piece before =>
      obtain ⟨rfl, hmap⟩ := List.cons.inj hpieces
      obtain ⟨shown, others, rfl, rfl, hothers⟩ := List.map_eq_append_iff.1 hmap
      obtain ⟨i, behind, rfl, hi, rfl⟩ := List.map_eq_cons_iff.1 hothers
      obtain ⟨rfl, rfl⟩ := Prod.mk.inj hi
      have hbraces : ∀ t ∈ first :: shown.map Insertion.text, beginsWithBrace t = false := by
        simpa using hbefore
      have hshown : shown.length + 2 ≤ templateLevels first (shown ++ i :: behind) := by
        rw [List.length_append] at hbound
        omega
      have hrun := templateLoop_refuses (templateLevels first (shown ++ i :: behind))
        ⟨[], [], true⟩ hfits hbraces hbrace hrest hshown
      rw [templateStart_total, size_templateSource, Nat.add_sub_cancel] at hrun
      exact hrun

/-- A program that is one expression in parentheses. -/
lemma exists_parenthesized {source : String}
    (h : (parse source N).toOption.any (fun tree =>
      tree.body.length == 1 && tree.body.all Node.isParenthesized) = true) :
    ∃ e, parse source N = .ok (.program [.parenthesizedExpression e]) := by
  obtain ⟨tree, hparse, htest⟩ := exists_ok_of_test h
  obtain ⟨body, -, rfl, -⟩ := derives_of_parse hparse
  obtain ⟨hlength, hall⟩ := Bool.and_eq_true_iff.1 htest
  obtain ⟨n, rfl⟩ := List.length_eq_one_iff.1 (beq_iff_eq.1 hlength)
  cases n with
  | parenthesizedExpression e => exact ⟨e, hparse⟩
  | _ => cases hall

theorem nested_template_reads_back :
    ∃ e, parse "(\n`$\x7bb\x7d`\n)" 4 = .ok (.program [.parenthesizedExpression e]) ∧
      parse "`\\`$$\x7b\n`$\x7bb\x7d`\n\x7d`" 4 = .ok (.program [.templateLiteral [e]
        [.templateElement "\\`$", .templateElement ""]]) ∧
      parse "`é$\x7b\n`$\x7bb\x7d`\n\x7d\x7d`" 4 =
        .error (.tokenMismatch .backtick .rBrace (.ofOffsets 14 15)) := by
  obtain ⟨e, he⟩ : ∃ e, parse "(\n`$\x7bb\x7d`\n)" 4 =
      .ok (.program [.parenthesizedExpression e]) :=
    exists_parenthesized (by decide +kernel)
  have hread := @parse_template 4 "\\`$" [⟨"`$\x7bb\x7d`", e, ""⟩] (by decide)
    (by simpa using by decide +kernel) (by simpa using by decide +kernel)
    (by simpa [Insertion.inParentheses] using he)
  have hrefused := @parse_template 4 "é" [⟨"`$\x7bb\x7d`", e, "\x7d"⟩] (by decide)
    (by simpa using by decide +kernel) (by simpa using by decide +kernel)
    (by simpa [Insertion.inParentheses] using he)
  refine ⟨e, he, hread.1 (by simpa using by decide +kernel), ?_⟩
  exact hrefused.2 [("`", "é")] "$\x7b\n`$\x7bb\x7d`\n\x7d" "\x7d" [] rfl (by decide +kernel)
    (by decide +kernel)

end Sources

end ScriptTree
