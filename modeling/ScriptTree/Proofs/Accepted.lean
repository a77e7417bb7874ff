import ScriptTree.Proofs.Gives
import ScriptTree.Proofs.Pieces

/-!
# Accepted sources have derivations

Each production gives only phrases that are derived, if the grammar that it uses for its parts does.
So does every level of the grammar, and the program of every accepted source.
-/

namespace ScriptTree

open ScriptTree.Parser

/-- What a goal is read as. -/
def Goal.category : Goal → Category
  | .statement => .statement
  | .sequence => .tier 0
  | .element | .assignment => .tier 1
  | .unary => .tier 12
  | .power => .tier 11
  | .creation => .creation

/-- A parser gives only derived phrases of a category. -/
def Yields (p : Parser Node) (category : Category) : Prop :=
  ∀ c r, Gives c r p fun n ts => Derives c (.one category n) ts

/-- So does a grammar for each of its goals. -/
def Grammar.Faithful (g : Grammar) : Prop :=
  ∀ goal, Yields (g.parse goal) goal.category

variable {g : Grammar} {c : Context} {r : Reading}

lemma Yields.last {α : Type} {p : Parser Node} {category : Category} {f : Node → α}
    {Q : α → List Token → Prop} (hp : Yields p category)
    (h : ∀ n ts, Derives c (.one category n) ts → Q (f n) ts) :
    Gives c r (p >>= fun n => pure (f n)) Q :=
  (hp c r).last h

lemma Yields.maybe {p : Parser Node} {category : Category} (hp : Yields p category) :
    Gives c r (some <$> p) fun n? ts => Derives c (.perhaps category n?) ts :=
  (hp c r).map fun _ _ h => h.present

lemma optionally_gives {p : Parser Node} {category : Category} {kind : Kind}
    (hfree : kind.isFree = false) (hp : Yields p category) :
    Gives c r (optionally kind p) fun n? ts => Derives c (.behind kind category n?) ts := by
  unfold optionally
  refine Gives.accept_ite hfree (fun t s ht => ?_) (Gives.pure .nothingBehind)
  exact (hp c s).map fun n ts h => h.behind ht

lemma identifier_yields : Yields identifier .name := by
  intro c r
  unfold identifier
  exact Gives.expect_bind rfl fun t s ht => Gives.pure (.name ht)

lemma nextItem_gives {close : Kind} {item : Parser Node} {category : Category}
    (hitem : Yields item category) (items : List Node) (ts : List Token)
    (h : Derives c (.row (some .comma) category items.reverse) ts) :
    Gives c r (Grammar.nextItem close item items)
      (Gives.Turned (fun items ts => Derives c (.row (some .comma) category items.reverse) ts)
        (fun items ts => Derives c (.row (some .comma) category items) ts) ts) := by
  unfold Grammar.nextItem
  apply Gives.sees_ite
  · intro _
    apply Gives.pure
    change Derives c _ (ts ++ [])
    rwa [List.append_nil]
  · intro _
    apply (hitem c r).bind
    intro n us s hn
    have hnext : Derives c (.row (some .comma) category (n :: items).reverse) (ts ++ us) := by
      rw [List.reverse_cons]
      exact h.rowItem hn
    apply Gives.sees_ite
    · intro _
      apply Gives.pure
      change Derives c _ (ts ++ (us ++ []))
      rwa [List.append_nil]
    · intro _
      refine Gives.expect_bind rfl fun t s' ht => Gives.pure ?_
      change Derives c _ (ts ++ (us ++ [t]))
      rw [← List.append_assoc]
      exact hnext.rowSeparator ht

/-- Items up to a closing bracket, behind the opening one. -/
lemma delimited_gives (bracket : Bracket) {item : Parser Node} {category : Category}
    (hitem : Yields item category) :
    Gives c r (g.delimited bracket.closing item) fun ns ts => ∀ t, Is bracket.opening t →
      Derives c (.list bracket (some .comma) category ns) (t :: ts) := by
  unfold Grammar.delimited
  apply (Gives.loop _ (fun items ts s h => nextItem_gives hitem items ts h) .rowNil).bind
  intro ns ts s hrow
  refine Gives.expect_bind (by cases bracket <;> rfl) fun u s' hu => Gives.pure ?_
  intro t ht
  exact hrow.list ht hu

variable (hg : g.Faithful)

include hg

lemma innerStatement_yields : Yields g.innerStatement .statement := by
  intro c r
  unfold Grammar.innerStatement
  exact Gives.sees_ite (fun _ => Gives.unexpected) fun _ => hg .statement c r

lemma nextInBlock_gives (body : List Node) (ts : List Token)
    (h : Derives c (.row none .statement body.reverse) ts) :
    Gives c r (g.nextInBlock body)
      (Gives.Turned (fun body ts => Derives c (.row none .statement body.reverse) ts)
        (fun body ts => Derives c (.row none .statement body) ts) ts) := by
  unfold Grammar.nextInBlock
  apply Gives.sees_ite
  · intro _
    apply Gives.pure
    change Derives c _ (ts ++ [])
    rwa [List.append_nil]
  · intro _
    refine Gives.sees_ite (fun _ => Gives.mismatch_bind) fun _ => ?_
    apply (hg .statement).last
    intro n us hn
    change Derives c (.row none .statement (n :: body).reverse) (ts ++ us)
    rw [List.reverse_cons]
    exact h.rowItem hn

lemma block_yields : Yields g.block .block := by
  intro c r
  unfold Grammar.block
  refine Gives.expect_bind rfl fun t s ht => ?_
  apply (Gives.loop _ (fun body ts s h => nextInBlock_gives hg body ts h) .rowNil).bind
  intro body ts s' hrow
  refine Gives.expect_bind rfl fun u s'' hu => Gives.pure ?_
  exact .block (hrow.list ht hu)

lemma parameter_yields : Yields g.parameter .parameter := by
  intro c r
  unfold Grammar.parameter
  apply (identifier_yields c r).bind
  intro n ts s hn
  refine Gives.accept_ite rfl (fun t s' ht => ?_) (Gives.pure ?_)
  · apply (hg .assignment).last
    intro value us hvalue
    exact hn.parameterWithDefault ht hvalue
  · rw [List.append_nil]
    exact hn.parameter

lemma parameters_gives : Gives c r g.parameters fun params ts =>
    Derives c (.list .round (some .comma) .parameter params) ts := by
  unfold Grammar.parameters
  refine Gives.expect_bind rfl fun t s ht => ?_
  exact (delimited_gives .round (parameter_yields hg)).mono fun params ts h => h t ht

lemma functionBody_gives : Gives c r g.functionBody fun body ts =>
    Derives c.inside (.one .block body) ts :=
  Gives.inFunction (block_yields hg c.inside r)

omit hg in
lemma functionKeyword_gives : Gives c r Grammar.functionKeyword fun generator ts =>
    ∃ t, Is (functionWord generator) t ∧ ts = [t] := by
  unfold Grammar.functionKeyword
  apply Gives.lookahead_bind
  split
  next hkind => exact Gives.advance_bind hkind rfl fun t s ht => Gives.pure ⟨t, ht, rfl⟩
  next hkind => exact Gives.advance_bind hkind rfl fun t s ht => Gives.pure ⟨t, ht, rfl⟩
  next => exact Gives.mismatch

/-- Parameters and body of a function, and what is made of them. -/
lemma code_gives {f : List Node → Node → Node} : Gives c r
    (g.parameters >>= fun params => g.functionBody >>= fun body => pure (f params body))
    fun n ts => ∃ params body, n = f params body ∧ Derives c (.code params body) ts := by
  apply (parameters_gives hg).bind
  intro params ts s hparams
  apply (functionBody_gives hg).last
  intro body us hbody
  exact ⟨params, body, rfl, hparams.code hbody⟩

lemma functionDeclaration_yields : Yields g.functionDeclaration .statementKind := by
  intro c r
  unfold Grammar.functionDeclaration
  refine Gives.bind (Gives.accept_gives rfl) fun isAsync ms s hm => ?_
  apply functionKeyword_gives.bind
  rintro generator _ s' ⟨t, ht, rfl⟩
  apply (identifier_yields c s').bind
  intro id ts s'' hid
  apply (code_gives hg).mono
  rintro _ us ⟨params, body, rfl, hcode⟩
  have hfunction := Derives.functionDeclaration hm ht hid hcode
  exact hfunction

lemma functionTail_gives (id : Option Node) (generator isAsync : Bool) :
    Gives c r (g.functionTail id generator isAsync) fun n ts => ∃ params body,
      n = .functionExpression id generator isAsync params body ∧ Derives c (.code params body) ts :=
  code_gives hg

omit hg in
lemma identifier?_gives : Gives c r Grammar.identifier? fun id ts =>
    Derives c (.perhaps .name id) ts := by
  unfold Grammar.identifier?
  exact Gives.sees_ite (fun _ => identifier_yields.maybe) fun _ => Gives.pure .absent

/-- A function behind its modifier. -/
lemma functionExpression_gives {isAsync : Bool} {ms : List Token}
    (hm : Mark (Is .kwAsync) isAsync ms) :
    Gives c r (g.functionExpression isAsync) fun n ts => Derives c (.one .primary n) (ms ++ ts) := by
  unfold Grammar.functionExpression
  apply functionKeyword_gives.bind
  rintro generator _ s ⟨t, ht, rfl⟩
  apply identifier?_gives.bind
  intro id ts s' hid
  apply (functionTail_gives hg id generator isAsync).mono
  rintro _ us ⟨params, body, rfl, hcode⟩
  have hfunction := Derives.functionExpression hm ht hid hcode
  exact hfunction

lemma arrowBody_yields : Yields g.arrowBody .arrowBody := by
  intro c r
  unfold Grammar.arrowBody
  apply Gives.sees_ite
  · intro _
    exact (block_yields hg c r).mono fun n ts h => h.arrowBlock
  · intro _
    exact (hg .element c r).mono fun n ts h => h.arrowExpression

/-- An arrow and a body behind parameters. -/
lemma arrowFunction_gives {params : List Node} {ts : List Token} (isAsync : Bool)
    (hparams : Derives c (.head params) ts) :
    Gives c r (g.arrowFunction params isAsync) fun n us => ∃ body,
      n = .arrowFunctionExpression false isAsync params body ∧
        Derives c (.one .arrow (.arrowFunctionExpression false false params body)) (ts ++ us) := by
  unfold Grammar.arrowFunction
  refine Gives.expect_bind rfl fun t s ht => ?_
  apply (Gives.inFunction (arrowBody_yields hg c.inside s)).last
  intro body us hbody
  exact ⟨body, rfl, hparams.arrow ht hbody⟩

/-- Parentheses hold the parameters of an arrow function or an expression. -/
lemma parenthesized_gives : Gives c r g.parenthesized fun n ts =>
    Derives c (.one .arrow n) ts ∨ ∃ e, n = .parenthesizedExpression e ∧
      Derives c (.one (.enclosed .round 0) e) ts := by
  unfold Grammar.parenthesized
  refine Gives.expect_bind rfl fun t s ht => ?_
  refine Gives.accept_ite rfl (fun u s' hu => ?_) ?_
  · refine Gives.sees_ite (fun _ => ?_) fun _ => Gives.mismatch
    apply (arrowFunction_gives hg false (.headNone ht hu)).mono
    rintro _ us ⟨body, rfl, harrow⟩
    exact Or.inl harrow
  · apply (hg .sequence c s).bind
    intro e ts s' he
    refine Gives.expect_bind rfl fun u s'' hu => ?_
    have henclosed : Derives c (.one (.enclosed .round 0) e) (t :: (ts ++ [u])) :=
      he.enclosed ht hu
    apply Gives.sees_ite
    · intro _
      split
      next params hparams =>
        apply (arrowFunction_gives hg false (henclosed.headCover hparams)).mono
        rintro _ us ⟨body, rfl, harrow⟩
        exact Or.inl (by simpa using harrow)
      next => exact Gives.reject _
    · intro _
      exact Gives.pure (Or.inr ⟨e, rfl, henclosed⟩)

lemma asyncExpression_yields : Yields g.asyncExpression .primary := by
  intro c r
  unfold Grammar.asyncExpression
  refine Gives.expect_bind rfl fun t s ht => ?_
  apply Gives.lookahead_bind
  split
  · exact functionExpression_gives hg (.present ht)
  · exact functionExpression_gives hg (.present ht)
  · apply (parenthesized_gives hg).bind
    intro n ts s' hn
    split
    next generator isAsync params body =>
      apply Gives.pure
      rw [List.append_nil]
      rcases hn with harrow | ⟨e, he, -⟩
      · exact harrow.asyncArrow ht
      · cases he
    next => exact Gives.reject _
  · apply (identifier_yields c s).bind
    intro param ts s' hparam
    refine Gives.sees_ite (fun _ => ?_) fun _ => Gives.reject _
    apply (arrowFunction_gives hg true hparam.headName).mono
    rintro _ us ⟨body, rfl, harrow⟩
    exact harrow.asyncArrow ht
  · exact Gives.reject _

omit hg

/-! ### Literals -/

lemma numericLiteral_gives (hkind : r.lookahead.kind = .number) :
    Gives c r numericLiteral fun n ts => ∃ t, ts = [t] ∧ t.kind = .number ∧ Literal t n := by
  unfold numericLiteral
  refine Gives.advance_bind hkind rfl fun t s ht => ?_
  exact Gives.spelled_bind fun value hvalue => Gives.pure ⟨t, rfl, ht.1, .number ht hvalue⟩

lemma bigIntLiteral_gives (hkind : r.lookahead.kind = .bigInt) :
    Gives c r bigIntLiteral fun n ts => ∃ t, ts = [t] ∧ Literal t n := by
  unfold bigIntLiteral
  refine Gives.advance_bind hkind rfl fun t s ht => Gives.pure ⟨t, rfl, ?_⟩
  obtain ⟨digits, hdigits, htext⟩ := digits_of_bigInt ht.2
  have hcut : (t.text.toList.reverse.dropWhile (· == 'n')).reverse = digits := by
    rw [htext, List.reverse_append, List.reverse_singleton, List.singleton_append,
      List.dropWhile_cons_of_pos (by rfl), List.dropWhile_eq_self_iff.2, List.reverse_reverse]
    intro hlength hletter
    have hmem : 'n' ∈ digits := by
      have hlast := List.getElem_mem (l := digits.reverse) hlength
      rw [beq_iff_eq.1 hletter] at hlast
      exact List.mem_reverse.1 hlast
    exact absurd (hdigits _ hmem) (by decide)
  rw [hcut]
  apply Literal.bigInt ht
  · rw [← String.toList_inj, htext, String.toList_append, String.toList_ofList]
    rfl
  · rwa [String.toList_ofList]

lemma stringLiteral_gives (hkind : r.lookahead.kind = .string) :
    Gives c r stringLiteral fun n ts => ∃ t, ts = [t] ∧ t.kind = .string ∧ Literal t n := by
  unfold stringLiteral
  refine Gives.advance_bind hkind rfl fun t s ht => Gives.spelled_bind fun value hvalue => ?_
  obtain ⟨quote, body, hquote, hcut, htext⟩ := exists_unquoted ht.2
  rw [hcut] at hvalue
  cases hvalue
  exact Gives.pure ⟨t, rfl, ht.1, .string ht hquote htext⟩

lemma regexLiteral_gives : Gives c r regexLiteral fun n ts => ∃ t, ts = [t] ∧ Literal t n := by
  unfold regexLiteral
  refine Gives.expect_bind rfl fun t s ht => Gives.spelled_bind fun parts hparts => ?_
  obtain ⟨close, pattern, flags, hclose, hpattern, hflags, hne, htext⟩ := exists_regexParts ht.2
  rw [regexParts?_eq hclose hpattern hflags] at hparts
  cases hparts
  split
  next => exact Gives.reject _
  next hfind =>
    refine Gives.pure ⟨t, rfl, .regExp ht htext hne fun c hc => ?_⟩
    simpa using List.find?_eq_none.1 hfind c hc

lemma acceptStar_gives : Gives c r acceptStar (Mark IsStar) := by
  unfold acceptStar
  apply Gives.lookahead_bind
  split
  next hstar =>
    rw [Bool.and_eq_true, beq_iff_eq, beq_iff_eq] at hstar
    apply Gives.advance_of_lexical
    · rw [hstar.1]
      decide
    · intro s hr
      exact Gives.pure (.present ⟨hr.is hstar.1 rfl, hstar.2⟩)
  next => exact Gives.pure .absent

/-- Where a template is read: the place is behind a piece of it, and where no text is due, the piece
is not text. -/
def InTemplate (c : Context) (start : Reading) (parts : TemplateParts) (r : Reading) : Prop :=
  ∃ (cursor : Cursor) (ts : List Token), r = ⟨cursor.nextTemplate.1, cursor.nextTemplate.2⟩ ∧
    Follows start ts r ∧
    Derives c (.template parts.textDue parts.expressions.reverse parts.quasis.reverse) ts ∧
    (parts.textDue = false → r.lookahead.kind = .backtick ∨ r.lookahead.kind = .endOfFile)

lemma InTemplate.lexical {start : Reading} {parts : TemplateParts}
    (h : InTemplate c start parts r) : r.lookahead.Lexical := by
  obtain ⟨cursor, ts, rfl, -⟩ := h
  exact cursor.lexical_of_nextTemplate

/-- In front of text, a piece of text is due. -/
lemma InTemplate.textDue {start : Reading} {parts : TemplateParts} (h : InTemplate c start parts r)
    (hkind : r.lookahead.kind ≠ .backtick ∧ r.lookahead.kind ≠ .endOfFile) :
    parts.textDue = true := by
  obtain ⟨cursor, ts, -, -, -, hend⟩ := h
  cases hdue : parts.textDue with
  | true => rfl
  | false =>
    rcases hend hdue with hend | hend
    · exact absurd hend hkind.1
    · exact absurd hend hkind.2

lemma expectInTemplate_eq_ok {kind : Kind} {t : Token} {s : Reading}
    (h : expectInTemplate kind c r = .ok (t, s)) : r.lookahead.kind = kind ∧ t = r.lookahead ∧
      s = ⟨r.cursor.nextTemplate.1, r.cursor.nextTemplate.2⟩ := by
  unfold expectInTemplate at h
  obtain ⟨b, m, hsees, hrest⟩ := bind_eq_ok.1 h
  obtain ⟨rfl, rfl⟩ := pure_eq_ok.1 hsees
  by_cases hkind : r.lookahead.kind = kind
  · rw [if_pos (beq_iff_eq.2 hkind)] at hrest
    cases hrest
    exact ⟨hkind, rfl, rfl⟩
  · rw [if_neg (by simpa using hkind)] at hrest
    cases hrest

/-- One part of a template leads to the next one. -/
lemma templatePart_again (hg : g.Faithful) {parts next : TemplateParts} {start s : Reading}
    (h : InTemplate c start parts r) (hturn : g.templatePart parts c r = .ok (.again next, s)) :
    InTemplate c start next s := by
  have hlexical := h.lexical
  have hdue := h.textDue
  obtain ⟨cursor, ts, hr, hts, hparts, -⟩ := h
  unfold Grammar.templatePart at hturn
  obtain ⟨t, m, hlook, hrest⟩ := bind_eq_ok.1 hturn
  cases hlook
  change Succeeds _ c r _ s at hrest
  split at hrest
  next htext =>
    obtain ⟨t, m, hadvance, hpure⟩ := bind_eq_ok.1 hrest
    cases hadvance
    cases hpure
    rw [hdue (by simp [htext])] at hparts
    refine ⟨r.cursor, ts ++ [r.lookahead], rfl, hts.trans (.piece (.refl _)), ?_, fun _ => ?_⟩
    · simpa [TemplateParts.addText] using hparts.templateText htext
    · subst hr
      exact Cursor.nextTemplate_of_text htext
  next hinsert =>
    obtain ⟨t, r₁, hadvance, hrest⟩ := bind_eq_ok.1 hrest
    obtain ⟨rfl, token, after, hnext, rfl⟩ := advance_eq_ok hadvance
    have hlexical₁ := Cursor.lexical_of_next hnext
    obtain ⟨u, r₂, hexpect, hrest⟩ := bind_eq_ok.1 hrest
    obtain ⟨_, hpass, hu, rfl⟩ := Gives.expect_gives rfl hlexical₁ u r₂ hexpect
    have hlexical₂ := hpass.lexical hlexical₁
    obtain ⟨e, r₃, hsequence, hrest⟩ := bind_eq_ok.1 hrest
    obtain ⟨us, hpass', he⟩ := hg .sequence c r₂ hlexical₂ e r₃ hsequence
    have hlexical₃ := hpass'.lexical hlexical₂
    obtain ⟨v, r₄, hclose, hpure⟩ := bind_eq_ok.1 hrest
    obtain ⟨hkind, rfl, rfl⟩ := expectInTemplate_eq_ok hclose
    cases hpure
    rw [hdue (by simp [hinsert])] at hparts
    have hv := hlexical₃.is hkind rfl
    have hfollows := hpass.follows.trans (hpass'.follows.trans (.piece (.refl _)))
    refine ⟨r₃.cursor, ts ++ r.lookahead :: u :: (us ++ [r₃.lookahead]), rfl,
      hts.trans (.next hnext hfollows), ?_, ?_⟩
    · simpa [TemplateParts.addText, TemplateParts.addExpression] using
        hparts.templateInsertion hinsert hu he hv
    · intro hfalse
      cases hfalse
  next =>
    obtain ⟨t, m, -, hpure⟩ := bind_eq_ok.1 hrest
    cases hpure
  next => cases hrest

/-- The backtick behind the last part ends a template. -/
lemma templatePart_done {parts : TemplateParts} {n : Node} {start s : Reading}
    (h : InTemplate c start parts r) (hturn : g.templatePart parts c r = .ok (.done n, s)) :
    s.lookahead.Lexical ∧ ∃ ts, Follows start ts s ∧
      ∀ t, Is .backtick t → Derives c (.one .primary n) (t :: ts) := by
  have hlexical := h.lexical
  obtain ⟨cursor, ts, -, hts, hparts, -⟩ := h
  unfold Grammar.templatePart at hturn
  obtain ⟨t, m, hlook, hrest⟩ := bind_eq_ok.1 hturn
  cases hlook
  change Succeeds _ c r _ s at hrest
  split at hrest
  next =>
    obtain ⟨t, m, -, hpure⟩ := bind_eq_ok.1 hrest
    cases hpure
  next =>
    obtain ⟨t, m, -, hrest⟩ := bind_eq_ok.1 hrest
    obtain ⟨u, m, -, hrest⟩ := bind_eq_ok.1 hrest
    obtain ⟨e, m, -, hrest⟩ := bind_eq_ok.1 hrest
    obtain ⟨v, m, -, hpure⟩ := bind_eq_ok.1 hrest
    cases hpure
  next hkind =>
    obtain ⟨u, m, hadvance, hpure⟩ := bind_eq_ok.1 hrest
    obtain ⟨rfl, token, after, hnext, rfl⟩ := advance_eq_ok hadvance
    cases hpure
    have hu := hlexical.is hkind rfl
    refine ⟨Cursor.lexical_of_next hnext, ts ++ [r.lookahead], hts.trans (.next hnext (.refl _)),
      fun t ht => ?_⟩
    unfold TemplateParts.toNode
    cases hdue : parts.textDue with
    | true =>
      rw [hdue] at hparts
      simpa [TemplateParts.addText] using hparts.templateWithoutEnd ht hu
    | false =>
      rw [hdue] at hparts
      simpa using hparts.template ht hu
  next => cases hrest

lemma templateLiteral_yields (hg : g.Faithful) : Yields g.templateLiteral .primary := by
  intro c r hr n s hrun
  unfold Grammar.templateLiteral at hrun
  obtain ⟨t, m, hopen, hloop⟩ := bind_eq_ok.1 hrun
  obtain ⟨hkind, rfl, rfl⟩ := expectInTemplate_eq_ok hopen
  generalize hstart : (⟨r.cursor.nextTemplate.1, r.cursor.nextTemplate.2⟩ : Reading) = start
    at hloop
  have hfirst : InTemplate c start ⟨[], [], true⟩ start := by
    refine ⟨r.cursor, [], hstart.symm, .refl start, .templateStart, ?_⟩
    intro hfalse
    cases hfalse
  obtain ⟨parts, m, hparts, hlast⟩ := loop_eq_ok hloop (InTemplate c start) hfirst
    fun parts m next m' => templatePart_again hg
  obtain ⟨hlexical, ts, hfollows, hts⟩ := templatePart_done hparts hlast
  subst hstart
  exact ⟨_, Passes.of_backtick hkind hfollows.piece hlexical, hts _ (hr.is hkind rfl)⟩

lemma propertyKey_yields : Yields Grammar.propertyKey (.key false) := by
  intro c r
  unfold Grammar.propertyKey
  apply Gives.lookahead_bind
  split
  next hkind =>
    unfold identifier
    refine Gives.expect_bind rfl fun t s ht => Gives.pure ?_
    exact .keyWord ⟨Or.inl ht.1, ht.1 ▸ ht.2⟩
  next hkind =>
    apply (stringLiteral_gives hkind).mono
    rintro n _ ⟨t, rfl, ht, hn⟩
    exact .keyLiteral (Or.inl ht) hn
  next hkind =>
    apply (numericLiteral_gives hkind).mono
    rintro n _ ⟨t, rfl, ht, hn⟩
    exact .keyLiteral (Or.inr ht) hn
  next =>
    split
    next hword => exact Gives.word_bind (Or.inr hword) fun t s ht => Gives.pure (.keyWord ht)
    next => exact Gives.unexpected

lemma acceptAsyncMethod_gives :
    Gives c r Grammar.acceptAsyncMethod (Mark (Is .kwAsync)) := by
  unfold Grammar.acceptAsyncMethod
  apply Gives.sees_ite
  · intro hkind
    apply Gives.place_bind
    apply Gives.tokenAt_bind
    rintro ⟨next, after⟩
    dsimp only
    split
    next => exact Gives.pure .absent
    next => exact Gives.advance_bind hkind rfl fun t s ht => Gives.pure (.present ht)
  · intro _
    exact Gives.pure .absent

lemma eq_of_isShorthand {key : Node} {computed : Bool} {next : Kind}
    (h : Grammar.isShorthand key computed next = true) :
    computed = false ∧ ∃ name, key = .identifier name := by
  unfold Grammar.isShorthand at h
  split at h
  next name => exact ⟨by simpa using h, name, rfl⟩
  next name => exact ⟨by simpa using h, name, rfl⟩
  next => cases h

lemma propertyTail_gives (hg : g.Faithful) {isAsync generator computed : Bool} {key : Node}
    {ms gs ts : List Token} (hm : Mark (Is .kwAsync) isAsync ms) (hs : Mark IsStar generator gs)
    (hkey : Derives c (.one (.key computed) key) ts) :
    Gives c r (g.propertyTail isAsync generator computed key) fun n us =>
      Derives c (.one .property n) (ms ++ (gs ++ (ts ++ us))) := by
  unfold Grammar.propertyTail
  apply Gives.sees_bind
  split
  next =>
    apply (functionTail_gives hg none generator isAsync).last
    rintro _ us ⟨params, body, rfl, hcode⟩
    exact .propertyMethod hm hs hkey hcode
  next hplain =>
    simp only [Bool.or_eq_true, not_or, Bool.not_eq_true] at hplain
    obtain ⟨⟨-, rfl⟩, rfl⟩ := hplain
    cases hm
    cases hs
    apply Gives.lookahead_bind
    split
    next hshort =>
      obtain ⟨rfl, name, rfl⟩ := eq_of_isShorthand hshort
      apply Gives.pure
      simpa using hkey.shorthand
    next =>
      refine Gives.expect_bind rfl fun t s ht => ?_
      apply (hg .element).last
      intro value us hvalue
      exact hkey.propertyValue ht hvalue

lemma property_yields (hg : g.Faithful) : Yields g.property .property := by
  intro c r
  unfold Grammar.property
  apply acceptAsyncMethod_gives.bind
  intro isAsync ms s hm
  apply acceptStar_gives.bind
  intro generator gs s' hs
  refine Gives.accept_ite rfl (fun t s'' ht => ?_) ?_
  · apply (hg .element c s'').bind
    intro key ts s₁ hkey
    refine Gives.expect_bind rfl fun u s₂ hu => ?_
    have henclosed : Derives c (.one (.enclosed .square 1) key) (t :: (ts ++ [u])) :=
      hkey.enclosed ht hu
    apply (propertyTail_gives hg hm hs henclosed.keyComputed).mono
    intro n us hn
    simpa using hn
  · apply (propertyKey_yields c s').bind
    intro key ts s'' hkey
    exact propertyTail_gives hg hm hs hkey

lemma arrayLiteral_yields (hg : g.Faithful) : Yields g.arrayLiteral .primary := by
  intro c r
  unfold Grammar.arrayLiteral
  refine Gives.expect_bind rfl fun t s ht => ?_
  exact (delimited_gives .square (hg .element)).last fun elements ts h => .array (h t ht)

lemma objectLiteral_yields (hg : g.Faithful) : Yields g.objectLiteral .primary := by
  intro c r
  unfold Grammar.objectLiteral
  refine Gives.expect_bind rfl fun t s ht => ?_
  exact (delimited_gives .curly (property_yields hg)).last fun properties ts h => .object (h t ht)

/-! ### Expressions -/

lemma memberName_yields : Yields memberName .memberName := by
  intro c r
  unfold memberName
  refine Gives.accept_ite rfl (fun t s ht => ?_) ?_
  · exact identifier_yields.last fun n ts hn => hn.memberPrivate ht
  · apply Gives.lookahead_bind
    split
    next hword => exact Gives.word_bind (Or.inr hword) fun t s ht => Gives.pure (.memberWord ht)
    next =>
      unfold identifier
      refine Gives.expect_bind rfl fun t s ht => Gives.pure ?_
      exact .memberWord ⟨Or.inl ht.1, ht.1 ▸ ht.2⟩

lemma yieldExpression_yields (hg : g.Faithful) : Yields g.yieldExpression .yielding := by
  intro c r
  unfold Grammar.yieldExpression
  refine Gives.expect_bind rfl fun t s ht => ?_
  apply Gives.lookahead_bind
  split
  next => exact Gives.pure (.yielding ht .absent)
  next => exact (hg .assignment).last fun n ts hn => .yielding ht hn.present

lemma primary_yields (hg : g.Faithful) : Yields g.primary .primary := by
  intro c r
  have hliteral : ∀ {n : Node} {ts : List Token}, (∃ t, ts = [t] ∧ Literal t n) →
      Derives c (.one .primary n) ts := by
    rintro n _ ⟨t, rfl, hn⟩
    exact .literal hn
  unfold Grammar.primary
  apply Gives.lookahead_bind
  split
  next hkind =>
    apply (numericLiteral_gives hkind).mono
    rintro n ts ⟨t, hts, -, hn⟩
    exact hliteral ⟨t, hts, hn⟩
  next hkind => exact (bigIntLiteral_gives hkind).mono fun n ts => hliteral
  next hkind =>
    apply (stringLiteral_gives hkind).mono
    rintro n ts ⟨t, hts, -, hn⟩
    exact hliteral ⟨t, hts, hn⟩
  next => exact regexLiteral_gives.mono fun n ts => hliteral
  next hkind =>
    refine Gives.advance_bind hkind rfl fun t s ht => Gives.pure (.literal (.boolean ht ?_))
    have hmem := ht.2.mem_spellings (by decide)
    simp only [Kind.spellings, List.mem_cons, List.not_mem_nil, or_false] at hmem
    rcases hmem with htext | htext <;> rw [htext] <;> rfl
  next hkind => exact Gives.advance_bind hkind rfl fun t s ht => Gives.pure (.literal (.null ht))
  next hkind =>
    exact Gives.advance_bind hkind rfl fun t s ht => Gives.pure (.literal (.undefined ht))
  next hkind => exact Gives.advance_bind hkind rfl fun t s ht => Gives.pure (.literal (.this ht))
  next => exact templateLiteral_yields hg c r
  next => exact arrayLiteral_yields hg c r
  next => exact objectLiteral_yields hg c r
  next =>
    apply (parenthesized_gives hg).mono
    rintro n ts (harrow | ⟨e, rfl, he⟩)
    · exact harrow.plainArrow
    · exact he.parenthesized
  next =>
    apply (identifier_yields c r).bind
    intro id ts s hid
    apply Gives.sees_ite
    · intro _
      apply (arrowFunction_gives hg false hid.headName).mono
      rintro _ us ⟨body, rfl, harrow⟩
      exact harrow.plainArrow
    · intro _
      apply Gives.pure
      rw [List.append_nil]
      exact hid.nameValue
  next => exact functionExpression_gives hg .absent
  next => exact functionExpression_gives hg .absent
  next => exact asyncExpression_yields hg c r
  next => exact (yieldExpression_yields hg c r).mono fun n ts h => h.yieldValue
  next => exact Gives.unexpected

lemma arguments_gives (hg : g.Faithful) : Gives c r g.arguments fun args ts =>
    Derives c (.list .round (some .comma) (.tier 1) args) ts := by
  unfold Grammar.arguments
  refine Gives.expect_bind rfl fun t s ht => ?_
  exact (delimited_gives .round (hg .element)).mono fun args ts h => h t ht

lemma computedMember_yields (hg : g.Faithful) :
    Yields g.computedMember (.enclosed .square 0) := by
  intro c r
  unfold Grammar.computedMember
  refine Gives.expect_bind rfl fun t s ht => ?_
  apply (hg .sequence c s).bind
  intro n ts s' hn
  exact Gives.expect_bind rfl fun u s'' hu => Gives.pure (hn.enclosed ht hu)

lemma optionalSuffix_gives (hg : g.Faithful) {o : Node} {ts : List Token} {t : Token}
    (ho : Derives c (.one (.chain .operand) o) ts) (ht : Is .questionDot t) :
    Gives c r (g.optionalSuffix o) fun n us =>
      Derives c (.one (.chain .operand) n) (ts ++ t :: us) := by
  unfold Grammar.optionalSuffix
  apply Gives.lookahead_bind
  split
  next => exact (arguments_gives hg).last fun args us hargs => ho.optionalCall ht hargs
  next => exact (computedMember_yields hg).last fun m us hm => ho.optionalComputedMember ht hm
  next => exact memberName_yields.last fun m us hm => ho.optionalMember ht hm

/-- One suffix makes a longer chain; calls are read only where a chain may have them. -/
lemma suffix_gives (hg : g.Faithful) {of : Chain} {calls : Bool} (hcalls : calls = true → of = .operand)
    {o : Node} {ts : List Token} (ho : Derives c (.one (.chain of) o) ts) :
    Gives c r (g.suffix calls o)
      (Gives.Turned (fun n ts => Derives c (.one (.chain of) n) ts)
        (fun n ts => Derives c (.one (.chain of) n) ts) ts) := by
  unfold Grammar.suffix
  apply Gives.lookahead_bind
  split
  next hkind =>
    refine Gives.advance_bind hkind rfl fun t s ht => ?_
    exact memberName_yields.last fun m us hm => ho.member ht hm
  next => exact (computedMember_yields hg).last fun m us hm => ho.computedMember hm
  next hkind =>
    obtain rfl := hcalls rfl
    refine Gives.advance_bind hkind rfl fun t s ht => ?_
    exact (optionalSuffix_gives hg ho ht).last fun n us hn => hn
  next =>
    obtain rfl := hcalls rfl
    exact (arguments_gives hg).last fun args us hargs => ho.call hargs
  next =>
    apply Gives.pure
    change Derives c _ (ts ++ [])
    rwa [List.append_nil]

lemma suffixes_gives (hg : g.Faithful) {of : Chain} {calls : Bool}
    (hcalls : calls = true → of = .operand) {o : Node} {ts : List Token}
    (ho : Derives c (.one (.chain of) o) ts) :
    Gives c r (g.suffixes calls o) fun n us => Derives c (.one (.chain of) n) (ts ++ us) := by
  unfold Grammar.suffixes
  apply Gives.loop fun n us => Derives c (.one (.chain of) n) (ts ++ us)
  · intro n us s hn
    apply (suffix_gives hg hcalls hn).mono
    intro turn vs hturn
    cases turn <;> simpa [Gives.Turned] using hturn
  · rwa [List.append_nil]

lemma newBase_yields (hg : g.Faithful) : Yields g.newBase (.chain .callee) := by
  intro c r
  unfold Grammar.newBase
  apply Gives.sees_ite
  · intro _
    apply Gives.nested
    intro hdepth
    exact (hg .creation c.deeper r).mono fun n ts h => h.createdInside hdepth
  · intro _
    exact (primary_yields hg c r).mono fun n ts h => h.base (by decide)

lemma optionalArguments_gives (hg : g.Faithful) : Gives c r g.optionalArguments fun args ts =>
    args = [] ∧ ts = [] ∨ Derives c (.list .round (some .comma) (.tier 1) args) ts := by
  unfold Grammar.optionalArguments
  apply Gives.sees_ite
  · intro _
    exact (arguments_gives hg).mono fun args ts h => Or.inr h
  · intro _
    exact Gives.pure (Or.inl ⟨rfl, rfl⟩)

lemma creation_yields (hg : g.Faithful) : Yields g.creation .creation := by
  intro c r
  unfold Grammar.creation
  refine Gives.expect_bind rfl fun t s ht => ?_
  apply (newBase_yields hg c s).bind
  intro base ts s' hbase
  apply (suffixes_gives hg (by simp) hbase).bind
  intro callee us s'' hcallee
  apply (optionalArguments_gives hg).last
  rintro args vs (⟨rfl, rfl⟩ | hargs)
  · rw [List.append_nil]
    exact .creation ht hcallee
  · rw [← List.append_assoc]
    exact .creationWith ht hcallee hargs

lemma base_yields (hg : g.Faithful) : Yields g.base (.chain .operand) := by
  intro c r
  unfold Grammar.base
  apply Gives.sees_ite
  · intro _
    exact (creation_yields hg c r).mono fun n ts h => h.created
  · intro _
    exact (primary_yields hg c r).mono fun n ts h => h.base (by decide)

lemma UpdateOperator.text_of_ofText? {text : String} {operator : UpdateOperator}
    (h : UpdateOperator.ofText? text = some operator) : operator.text = text := by
  simpa using List.find?_some h

lemma UnaryOperator.text_of_ofText? {text : String} {operator : UnaryOperator}
    (h : UnaryOperator.ofText? text = some operator) : operator.text = text := by
  simpa using List.find?_some h

lemma BinaryOperator.text_of_ofText? {text : String} {operator : BinaryOperator}
    (h : BinaryOperator.ofText? text = some operator) : operator.text = text := by
  simpa using List.find?_some h

lemma LogicalOperator.text_of_ofText? {text : String} {operator : LogicalOperator}
    (h : LogicalOperator.ofText? text = some operator) : operator.text = text := by
  simpa using List.find?_some h

lemma AssignmentOperator.text_of_ofText? {text : String} {operator : AssignmentOperator}
    (h : AssignmentOperator.ofText? text = some operator) : operator.text = text := by
  simpa using List.find?_some h

lemma suffixed_yields (hg : g.Faithful) : Yields g.suffixed .operand := by
  intro c r
  unfold Grammar.suffixed
  apply (base_yields hg c r).bind
  intro base ts s hbase
  apply (suffixes_gives hg (fun _ => rfl) hbase).bind
  intro n us s' hn
  apply Gives.sees_ite
  · intro hkind
    split
    next htarget =>
      refine Gives.advance_bind hkind rfl fun t s'' ht => ?_
      refine Gives.spelled_bind fun operator hoperator => Gives.pure ?_
      have hspelt := ht.isOperator (by decide)
      rw [← UpdateOperator.text_of_ofText? hoperator] at hspelt
      rw [← List.append_assoc]
      exact hn.updateBehind htarget hspelt
    next =>
      apply Gives.lookahead_bind
      exact Gives.reject _
  · intro _
    apply Gives.pure
    rw [List.append_nil]
    exact hn.suffixed

lemma operand_yields (hg : g.Faithful) : Yields g.operand .operand := by
  intro c r
  have hunary : ∀ {kind : Kind}, r.lookahead.kind = kind → kind.isFree = false →
      kind.spellings ≠ [] → Gives c r (do
        let token ← advance
        let operator ← spelled token (UnaryOperator.ofText? token.text)
        return .unaryExpression operator (← g.parse .unary))
        fun n ts => Derives c (.one .operand n) ts := by
    intro kind hkind hfree hne
    refine Gives.advance_bind hkind hfree fun t s ht => ?_
    refine Gives.spelled_bind fun operator hoperator => ?_
    have hspelt := ht.isOperator hne
    rw [← UnaryOperator.text_of_ofText? hoperator] at hspelt
    exact (hg .unary).last fun n ts hn => .unary hspelt hn
  unfold Grammar.operand
  apply Gives.lookahead_bind
  split
  next hkind => exact hunary hkind rfl (by decide)
  next hkind => exact hunary hkind rfl (by decide)
  next hkind =>
    refine Gives.advance_bind hkind rfl fun t s ht => ?_
    refine Gives.spelled_bind fun operator hoperator => ?_
    have hspelt := ht.isOperator (by decide)
    rw [← UpdateOperator.text_of_ofText? hoperator] at hspelt
    apply (hg .unary c s).bind
    intro n ts s' hn
    split
    next htarget =>
      apply Gives.pure
      rw [List.append_nil]
      exact .update hspelt hn htarget
    next => exact Gives.reject _
  next hkind =>
    refine Gives.advance_bind hkind rfl fun t s ht => ?_
    exact (hg .unary).last fun n ts hn => .await ht hn
  next => exact suffixed_yields hg c r

lemma unary_yields (hg : g.Faithful) : Yields g.unary (.tier 12) := by
  intro c r
  unfold Grammar.unary
  apply Gives.nested
  intro hdepth
  exact (operand_yields hg c.deeper r).mono fun n ts hn => hn.operand hdepth

lemma power_yields (hg : g.Faithful) : Yields g.power (.tier 11) := by
  intro c r
  unfold Grammar.power
  apply (unary_yields hg c r).bind
  intro left ts s hleft
  apply Gives.sees_ite
  · intro hkind
    refine Gives.advance_bind hkind rfl fun t s' ht => ?_
    refine Gives.spelled_bind fun operator hoperator => ?_
    have htext : t.text = "**" := by
      simpa [Kind.spellings] using ht.2.mem_spellings (by decide)
    have hspelt := ht.isOperator (by decide)
    rw [htext] at hoperator hspelt
    obtain rfl : BinaryOperator.pow = operator := Option.some.inj hoperator
    have hright : Gives c s' (nested (g.parse .power)) fun right us =>
        Derives c (.one (.tier 11) (.binaryExpression left .pow right)) (ts ++ t :: us) := by
      apply Gives.nested
      intro hdepth
      exact (hg .power c.deeper s').mono fun right us hright => hleft.power hspelt hdepth hright
    exact hright.last fun right us h => h
  · intro _
    apply Gives.pure
    rw [List.append_nil]
    exact hleft.loosen (by decide)

/-- The operators of a level join operands into expressions of a tier. -/
def OperatorLevel.Joins (level : OperatorLevel) (tier : Nat) : Prop :=
  ∀ {c left ts t join right us}, Derives c (.one (.tier tier) left) ts → Is level.kind t →
    level.join? t.text = some join → Derives c (.one (.tier (tier + 1)) right) us →
    Derives c (.one (.tier tier) (join left right)) (ts ++ t :: us)

lemma OperatorLevel.joins_binary {kind : Kind} {tier : Nat} (hne : kind.spellings ≠ [])
    (h : ∀ text ∈ kind.spellings, ∀ operator ∈ BinaryOperator.ofText? text,
      operator ≠ .pow ∧ operator.level = tier) : (OperatorLevel.binary kind).Joins tier := by
  intro c left ts t join right us hleft ht hjoin hright
  obtain ⟨operator, hoperator, rfl⟩ := Option.map_eq_some_iff.1 hjoin
  obtain ⟨hpow, rfl⟩ := h t.text (ht.2.mem_spellings hne) operator hoperator
  have hspelt := ht.isOperator hne
  rw [← BinaryOperator.text_of_ofText? hoperator] at hspelt
  exact hleft.binary hpow hspelt hright

lemma OperatorLevel.joins_logical {kind : Kind} {tier : Nat} (hne : kind.spellings ≠ [])
    (h : ∀ text ∈ kind.spellings, ∀ operator ∈ LogicalOperator.ofText? text,
      operator.level = tier) : (OperatorLevel.logical kind).Joins tier := by
  intro c left ts t join right us hleft ht hjoin hright
  obtain ⟨operator, hoperator, rfl⟩ := Option.map_eq_some_iff.1 hjoin
  obtain rfl := h t.text (ht.2.mem_spellings hne) operator hoperator
  have hspelt := ht.isOperator hne
  rw [← LogicalOperator.text_of_ofText? hoperator] at hspelt
  exact hleft.logical hspelt hright

lemma leftGrouped_yields {level : OperatorLevel} {tier : Nat} {p : Parser Node}
    (hlevel : level.Joins tier) (hfree : level.kind.isFree = false)
    (hp : Yields p (.tier (tier + 1))) :
    Yields (g.leftGrouped level p) (.tier tier) := by
  intro c r
  unfold Grammar.leftGrouped
  apply (hp c r).bind
  intro first ts s hfirst
  apply Gives.loop fun left us => Derives c (.one (.tier tier) left) (ts ++ us)
  · intro left us s' hleft
    unfold Grammar.nextOperand
    apply Gives.sees_ite
    · intro hkind
      refine Gives.advance_bind hkind hfree fun t s'' ht => ?_
      refine Gives.spelled_bind fun join hjoin => ?_
      apply hp.last
      intro right vs hright
      change Derives c _ (ts ++ (us ++ t :: vs))
      rw [← List.append_assoc]
      exact hlevel hleft ht hjoin hright
    · intro _
      apply Gives.pure
      change Derives c _ (ts ++ (us ++ []))
      rwa [List.append_nil]
  · rw [List.append_nil]
    exact hfirst.loosen (Nat.le_succ tier)

lemma operation_yields (hg : g.Faithful) : Yields g.operation (.tier 2) := by
  unfold Grammar.operation OperatorLevel.all
  simp only [List.foldr_cons, List.foldr_nil]
  apply leftGrouped_yields (OperatorLevel.joins_logical (by decide) (by decide)) rfl
  apply leftGrouped_yields (OperatorLevel.joins_logical (by decide) (by decide)) rfl
  apply leftGrouped_yields (OperatorLevel.joins_binary (by decide) (by decide)) rfl
  apply leftGrouped_yields (OperatorLevel.joins_binary (by decide) (by decide)) rfl
  apply leftGrouped_yields (OperatorLevel.joins_binary (by decide) (by decide)) rfl
  apply leftGrouped_yields (OperatorLevel.joins_binary (by decide) (by decide)) rfl
  apply leftGrouped_yields (OperatorLevel.joins_binary (by decide) (by decide)) rfl
  apply leftGrouped_yields (OperatorLevel.joins_binary (by decide) (by decide)) rfl
  apply leftGrouped_yields (OperatorLevel.joins_binary (by decide) (by decide)) rfl
  exact power_yields hg

/-- A value of an assignment, one level deeper. -/
lemma value_gives (hg : g.Faithful) : Gives c r (nested (g.parse .element)) fun value us =>
    c.depth < c.limit ∧ Derives c.deeper (.one (.tier 1) value) us := by
  apply Gives.nested
  intro hdepth
  exact (hg .element c.deeper r).mono fun value us hvalue => ⟨hdepth, hvalue⟩

lemma assignment_yields (hg : g.Faithful) : Yields g.assignment (.tier 1) := by
  intro c r
  unfold Grammar.assignment
  apply (operation_yields hg c r).bind
  intro id ts s hid
  apply Gives.lookahead_bind
  split
  next hkind =>
    split
    next htarget =>
      rw [Bool.or_eq_true, beq_iff_eq, beq_iff_eq] at hkind
      rcases hkind with hkind | hkind
      · refine Gives.advance_bind hkind rfl fun t s' ht => ?_
        refine Gives.spelled_bind fun operator hoperator => ?_
        have htext : t.text = "=" := by
          simpa [Kind.spellings] using ht.2.mem_spellings (by decide)
        rw [htext] at hoperator
        obtain rfl : AssignmentOperator.assign = operator := Option.some.inj hoperator
        rw [ht.1]
        apply (value_gives hg).last
        rintro value us ⟨hdepth, hvalue⟩
        exact hid.assignment htarget ht hdepth hvalue
      · refine Gives.advance_bind hkind rfl fun t s' ht => ?_
        refine Gives.spelled_bind fun operator hoperator => ?_
        have hne : operator ≠ .assign := by
          have hall : ∀ text ∈ Kind.complexAssignment.spellings,
              ∀ operator ∈ AssignmentOperator.ofText? text, operator ≠ .assign := by decide
          exact hall t.text (ht.2.mem_spellings (by decide)) operator hoperator
        have hspelt := ht.isOperator (by decide)
        rw [← AssignmentOperator.text_of_ofText? hoperator] at hspelt
        rw [ht.1]
        apply (value_gives hg).last
        rintro value us ⟨hdepth, hvalue⟩
        exact hid.complexAssignment htarget hne hspelt hdepth hvalue
    next => exact Gives.reject _
  next =>
    apply Gives.pure
    rw [List.append_nil]
    exact hid.loosen (by decide)

lemma element_yields (hg : g.Faithful) : Yields g.element (.tier 1) := by
  intro c r
  unfold Grammar.element
  apply Gives.sees_ite
  · intro _
    exact (yieldExpression_yields hg c r).mono fun n ts hn => hn.yieldElement
  · intro _
    exact assignment_yields hg c r

/-- A further expression of a sequence, behind a comma. -/
lemma furtherElement_gives (hg : g.Faithful) {expressions : List Node} {ts : List Token} {t : Token}
    (h : Derives c (.row (some .comma) (.tier 1) expressions.reverse) ts) (ht : Is .comma t) :
    Gives c r (g.element >>= fun n => pure (.again (n :: expressions) : Turn (List Node) Node))
      fun turn us => ∃ n, turn = .again (n :: expressions) ∧
        Derives c (.row (some .comma) (.tier 1) (n :: expressions).reverse) (ts ++ t :: us) := by
  apply (element_yields hg).last
  intro n us hn
  refine ⟨n, rfl, ?_⟩
  have hitem := (h.rowSeparator ht).rowItem hn
  rw [List.reverse_cons]
  simpa using hitem

/-- A sequence goes on with at least two expressions behind it. -/
lemma sequence_gives (hg : g.Faithful) {expressions : List Node} {ts : List Token} {bound : Nat}
    (h : Derives c (.row (some .comma) (.tier 1) expressions.reverse) ts)
    (htwo : 2 ≤ expressions.length) :
    Gives c r (loop g.nextInSequence bound expressions) fun n us =>
      Derives c (.one (.tier 0) n) (ts ++ us) := by
  apply Gives.loop fun expressions us => 2 ≤ expressions.length ∧
    Derives c (.row (some .comma) (.tier 1) expressions.reverse) (ts ++ us)
  · rintro expressions us s ⟨htwo, hrow⟩
    unfold Grammar.nextInSequence
    refine Gives.accept_ite rfl (fun t s' ht => ?_) (Gives.pure ?_)
    · apply (furtherElement_gives hg hrow ht).mono
      rintro _ vs ⟨n, rfl, hn⟩
      rw [List.append_assoc] at hn
      exact ⟨Nat.le_succ_of_le htwo, hn⟩
    · change Derives c _ (ts ++ (us ++ []))
      rw [List.append_nil]
      exact hrow.sequence (by simpa using htwo)
  · rw [List.append_nil]
    exact ⟨htwo, h⟩

lemma sequence_yields (hg : g.Faithful) : Yields g.sequence (.tier 0) := by
  intro c r
  unfold Grammar.sequence
  apply (element_yields hg c r).bind
  intro first ts s hfirst
  have hrow : Derives c (.row (some .comma) (.tier 1) [first].reverse) ts := by
    simpa using Derives.rowNil.rowItem hfirst
  apply Gives.sees_ite
  · intro hkind
    -- the comma that is already seen makes a second expression in the first turn
    cases g.bound with
    | zero =>
      intro _ a u hrun
      cases hrun
    | succ bound =>
      have hturn : Gives c s (g.nextInSequence [first]) fun turn us =>
          ∃ n, turn = .again [n, first] ∧
            Derives c (.row (some .comma) (.tier 1) [n, first].reverse) (ts ++ us) :=
        Gives.accept_pos hkind rfl fun t s' ht => furtherElement_gives hg hrow ht
      rw [Parser.loop]
      apply hturn.bind
      rintro _ us s' ⟨n, rfl, hn⟩
      apply (sequence_gives hg hn (Nat.le_refl 2)).mono
      intro e vs he
      rwa [List.append_assoc] at he
  · intro _
    apply Gives.pure
    rw [List.append_nil]
    exact hfirst.loosen (by decide)

/-! ### Classes -/

lemma acceptModifier_gives {kind : Kind} (hfree : kind.isFree = false) :
    Gives c r (acceptModifier kind) (Mark (Is kind)) := by
  unfold acceptModifier
  apply Gives.sees_ite
  · intro hkind
    apply Gives.place_bind
    apply Gives.tokenAt_bind
    rintro ⟨next, after⟩
    dsimp only
    split
    next => exact Gives.pure .absent
    next => exact Gives.advance_bind hkind hfree fun t s ht => Gives.pure (.present ht)
  · intro _
    exact Gives.pure .absent

lemma memberKey_gives : Gives c r memberKey fun name ts =>
    ∃ t, IsMemberWord t ∧ name = t.text ∧ ts = [t] := by
  unfold memberKey
  apply Gives.lookahead_bind
  split
  next hkind =>
    rw [Bool.or_eq_true, beq_iff_eq] at hkind
    exact Gives.word_bind hkind fun t s ht => Gives.pure ⟨t, ht, rfl, rfl⟩
  next => exact Gives.reject _

/-- The name of a member behind its hash sign, if it has one. -/
lemma derives_memberKey {isPrivate : Bool} {hs : List Token} {t : Token}
    (hh : Mark (Is .hash) isPrivate hs) (ht : IsMemberWord t) :
    Derives c (.one (.memberKey isPrivate)
      (if isPrivate = true then .privateName (.identifier t.text) else .identifier t.text))
      (hs ++ [t]) := by
  cases hh with
  | absent => exact .publicKey ht
  | present hu => exact .privateKey hu ht

lemma classPropertyTail_gives (hg : g.Faithful) {isStatic isPrivate : Bool} {key : Node}
    {ss ts : List Token} (hs : Mark (Is .kwStatic) isStatic ss)
    (hkey : Derives c (.one (.memberKey isPrivate) key) ts) :
    Gives c r (g.classPropertyTail isStatic isPrivate key) fun n us =>
      Derives c (.one .member n) (ss ++ (ts ++ us)) := by
  unfold Grammar.classPropertyTail
  apply (optionally_gives rfl (hg .assignment)).bind
  intro value us s hvalue
  refine Gives.bind (Gives.accept_gives rfl) fun b vs s' hend => ?_
  split
  next hprivate =>
    subst hprivate
    apply Gives.pure
    rw [List.append_nil]
    exact .classPrivateProperty hs hkey hvalue hend
  next hpublic =>
    rw [Bool.not_eq_true] at hpublic
    subst hpublic
    apply Gives.pure
    rw [List.append_nil]
    exact .classProperty hs hkey hvalue hend

/-- Exactly the public member of that name is a constructor. -/
lemma methodKind_iff (isPrivate : Bool) (name : String) :
    (if (!isPrivate && name == "constructor") = true then MethodKind.constructor else .method) =
        .constructor ↔
      (if isPrivate = true then Node.privateName (.identifier name) else .identifier name) =
        .identifier "constructor" := by
  cases isPrivate with
  | true => simp
  | false => simp

lemma classMember_yields (hg : g.Faithful) : Yields g.classMember .member := by
  intro c r
  unfold Grammar.classMember
  apply Gives.lookahead_bind
  refine Gives.bind (acceptModifier_gives rfl) fun isStatic ss s₁ hs => ?_
  refine Gives.bind (acceptModifier_gives rfl) fun isAsync ms s₂ hm => ?_
  refine Gives.bind acceptStar_gives fun generator gs s₃ hstar => ?_
  refine Gives.bind (Gives.accept_gives rfl) fun isPrivate hs' s₄ hhash => ?_
  apply memberKey_gives.bind
  rintro _ _ s₅ ⟨t, ht, rfl, rfl⟩
  have hkey := derives_memberKey (c := c) hhash ht
  apply Gives.sees_ite
  · intro _
    apply (functionTail_gives hg none generator isAsync).last
    rintro _ us ⟨params, body, rfl, hcode⟩
    have hmethod := Derives.method hs hm hstar hkey (methodKind_iff isPrivate t.text) hcode
    simpa using hmethod
  · intro _
    split
    next =>
      apply Gives.lookahead_bind
      exact Gives.reject _
    next hplain =>
      simp only [Bool.or_eq_true, not_or, Bool.not_eq_true] at hplain
      obtain ⟨rfl, rfl⟩ := hplain
      cases hm
      cases hstar
      apply (classPropertyTail_gives hg hs hkey).mono
      intro n us hn
      simpa using hn

lemma nextMember_gives (hg : g.Faithful) (members : List Node) (ts : List Token)
    (h : Derives c (.row (some .semicolon) .member members.reverse) ts) :
    Gives c r (g.nextMember members)
      (Gives.Turned (fun members ts => Derives c (.row (some .semicolon) .member members.reverse) ts)
        (fun members ts => Derives c (.row (some .semicolon) .member members) ts) ts) := by
  unfold Grammar.nextMember
  apply Gives.sees_ite
  · intro _
    apply Gives.pure
    change Derives c _ (ts ++ [])
    rwa [List.append_nil]
  · intro _
    refine Gives.accept_ite rfl (fun t s ht => Gives.pure (h.rowSeparator ht)) ?_
    refine Gives.sees_ite (fun _ => Gives.mismatch_bind) fun _ => ?_
    apply (classMember_yields hg).last
    intro n us hn
    change Derives c (.row (some .semicolon) .member (n :: members).reverse) (ts ++ us)
    rw [List.reverse_cons]
    exact h.rowItem hn

lemma classBody_gives (hg : g.Faithful) : Gives c r g.classBody fun n ts => ∃ members,
    n = .classBody members ∧
      Derives c (.list .curly (some .semicolon) .member members) ts := by
  unfold Grammar.classBody
  refine Gives.expect_bind rfl fun t s ht => ?_
  apply (Gives.loop _ (fun members ts s h => nextMember_gives hg members ts h) .rowNil).bind
  intro members ts s' hrow
  refine Gives.expect_bind rfl fun u s'' hu => Gives.pure ?_
  exact ⟨members, rfl, hrow.list ht hu⟩

lemma heritage_yields (hg : g.Faithful) : Yields g.heritage (.chain .heritage) := by
  intro c r
  unfold Grammar.heritage
  apply (identifier_yields c r).bind
  intro base ts s hbase
  exact suffixes_gives hg (by simp) hbase.heritage

lemma classDeclaration_yields (hg : g.Faithful) : Yields g.classDeclaration .statementKind := by
  intro c r
  unfold Grammar.classDeclaration
  refine Gives.expect_bind rfl fun t s ht => ?_
  apply (identifier_yields c s).bind
  intro id ts s₁ hid
  apply (optionally_gives rfl (heritage_yields hg)).bind
  intro superClass us s₂ hsuper
  apply (classBody_gives hg).last
  rintro _ vs ⟨members, rfl, hbody⟩
  exact .classDeclaration ht hid hsuper hbody

/-! ### Statements -/

lemma expressionStatement_yields (hg : g.Faithful) :
    Yields g.expressionStatement .statementKind := by
  intro c r
  unfold Grammar.expressionStatement
  apply (sequence_yields hg c r).bind
  intro n ts s hn
  exact Gives.last (Gives.accept_gives rfl) fun b us hend => hn.expressionStatement hend

lemma variableDeclaration_yields (hg : g.Faithful) :
    Yields g.variableDeclaration .declaration := by
  intro c r
  unfold Grammar.variableDeclaration
  refine Gives.expect_bind rfl fun t s ht => ?_
  refine Gives.spelled_bind fun kind hkind => ?_
  apply (identifier_yields c s).bind
  intro id ts s' hid
  exact (optionally_gives rfl (hg .sequence)).last fun value us hvalue =>
    .declaration ht hkind hid hvalue

lemma condition_yields (hg : g.Faithful) : Yields g.condition (.enclosed .round 0) := by
  intro c r
  unfold Grammar.condition
  refine Gives.expect_bind rfl fun t s ht => ?_
  apply (hg .sequence c s).bind
  intro test ts s' htest
  exact Gives.expect_bind rfl fun u s'' hu => Gives.pure (htest.enclosed ht hu)

lemma ifStatement_yields (hg : g.Faithful) : Yields g.ifStatement .statementKind := by
  intro c r
  unfold Grammar.ifStatement
  refine Gives.expect_bind rfl fun t s ht => ?_
  apply (condition_yields hg c s).bind
  intro test ts s₁ htest
  apply (innerStatement_yields hg c s₁).bind
  intro consequent us s₂ hconsequent
  exact (optionally_gives rfl (innerStatement_yields hg)).last fun alternate vs halternate =>
    .ifStatement ht htest hconsequent halternate

lemma loopBody_yields (hg : g.Faithful) : Yields g.loopBody .loopBody := by
  intro c r
  unfold Grammar.loopBody
  apply Gives.sees_ite
  · intro _
    exact (block_yields hg c r).mono fun n ts hn => hn.loopBlock
  · intro _
    exact (innerStatement_yields hg).last fun n ts hn => hn.loopSingle

lemma sequenceUnless_gives (hg : g.Faithful) (ending : Kind) :
    Gives c r (g.sequenceUnless ending) fun n ts => Derives c (.perhaps (.tier 0) n) ts := by
  unfold Grammar.sequenceUnless
  exact Gives.sees_ite (fun _ => Gives.pure .absent) fun _ => (hg .sequence).maybe

lemma loopClause_gives (hg : g.Faithful) (ending : Kind) (hfree : ending.isFree = false) :
    Gives c r (g.loopClause ending) fun n ts => ∃ us t, ts = us ++ [t] ∧ Is ending t ∧
      Derives c (.perhaps (.tier 0) n) us := by
  unfold Grammar.loopClause
  apply (sequenceUnless_gives hg ending).bind
  intro n us s hn
  exact Gives.expect_bind hfree fun t s' ht => Gives.pure ⟨us, t, rfl, ht, hn⟩

lemma loopStart_gives (hg : g.Faithful) :
    Gives c r g.loopStart fun n ts => Derives c (.perhaps .loopStart n) ts := by
  unfold Grammar.loopStart
  apply Gives.lookahead_bind
  split
  next => exact Gives.pure .absent
  next =>
    exact (variableDeclaration_yields hg c r).map fun n ts hn => hn.loopDeclaration.present
  next => exact (hg .sequence c r).map fun n ts hn => hn.loopExpression.present

lemma forStatement_yields (hg : g.Faithful) : Yields g.forStatement .statementKind := by
  intro c r
  unfold Grammar.forStatement
  refine Gives.expect_bind rfl fun t s ht => ?_
  refine Gives.expect_bind rfl fun u s₁ hu => ?_
  apply (loopStart_gives hg).bind
  intro init ts s₂ hinit
  apply Gives.sees_ite
  · intro hkind
    cases hinit with
    | absent => exact Gives.unexpected
    | present hleft =>
      refine Gives.advance_bind hkind rfl fun v s₃ hv => ?_
      apply (hg .assignment c s₃).bind
      intro right us s₄ hright
      refine Gives.expect_bind rfl fun w s₅ hw => ?_
      exact (loopBody_yields hg).last fun body vs hbody =>
        .forOfStatement ht hu hleft hv hright hw hbody
  · intro _
    refine Gives.expect_bind rfl fun v s₃ hv => ?_
    apply (loopClause_gives hg .semicolon rfl).bind
    rintro test _ s₄ ⟨us, w, rfl, hw, htest⟩
    apply (loopClause_gives hg .rParen rfl).bind
    rintro update _ s₅ ⟨vs, x, rfl, hx, hupdate⟩
    apply (loopBody_yields hg).last
    intro body ws hbody
    have hfor := Derives.forStatement ht hu hinit hv htest hw hupdate hx hbody
    simpa using hfor

lemma whileStatement_yields (hg : g.Faithful) : Yields g.whileStatement .statementKind := by
  intro c r
  unfold Grammar.whileStatement
  refine Gives.expect_bind rfl fun t s ht => ?_
  apply (condition_yields hg c s).bind
  intro test ts s₁ htest
  exact (innerStatement_yields hg).last fun body us hbody => .whileStatement ht htest hbody

lemma doWhileStatement_yields (hg : g.Faithful) : Yields g.doWhileStatement .statementKind := by
  intro c r
  unfold Grammar.doWhileStatement
  refine Gives.expect_bind rfl fun t s ht => ?_
  apply (innerStatement_yields hg c s).bind
  intro body ts s₁ hbody
  refine Gives.expect_bind rfl fun u s₂ hu => ?_
  apply (condition_yields hg c s₂).bind
  intro test us s₃ htest
  exact Gives.last (Gives.accept_gives rfl) fun b vs hend => .doWhileStatement ht hbody hu htest hend

/-- A statement that is one word, with what the word derives. -/
lemma wordStatement_gives {kind : Kind} {node : Node} (hkind : r.lookahead.kind = kind)
    (hfree : kind.isFree = false)
    (h : ∀ {t b ts}, Is kind t → Mark (Is .semicolon) b ts →
      Derives c (.one .statementKind node) (t :: ts)) :
    Gives c r (Grammar.wordStatement node) fun n ts => Derives c (.one .statementKind n) ts := by
  unfold Grammar.wordStatement
  refine Gives.advance_bind hkind hfree fun t s ht => ?_
  exact Gives.last (Gives.accept_gives rfl) fun b ts hend => h ht hend

lemma returnArgument_gives (hg : g.Faithful) :
    Gives c r g.returnArgument fun n ts => Derives c (.perhaps (.tier 0) n) ts := by
  unfold Grammar.returnArgument
  apply Gives.lookahead_bind
  split
  next => exact Gives.pure .absent
  next => exact (hg .sequence).maybe

lemma returnStatement_yields (hg : g.Faithful) : Yields g.returnStatement .statementKind := by
  intro c r
  unfold Grammar.returnStatement
  apply Gives.context_bind
  split
  next hin =>
    refine Gives.expect_bind rfl fun t s ht => ?_
    apply (returnArgument_gives hg).bind
    intro argument ts s₁ hargument
    exact Gives.last (Gives.accept_gives rfl) fun b us hend => .returnStatement hin ht hargument hend
  next =>
    apply Gives.lookahead_bind
    exact Gives.reject _

lemma throwStatement_yields (hg : g.Faithful) : Yields g.throwStatement .statementKind := by
  intro c r
  unfold Grammar.throwStatement
  refine Gives.expect_bind rfl fun t s ht => ?_
  apply (hg .sequence c s).bind
  intro argument ts s₁ hargument
  exact Gives.last (Gives.accept_gives rfl) fun b us hend => .throwStatement ht hargument hend

lemma catchParameter_yields : Yields Grammar.catchParameter .catchParameter := by
  intro c r
  unfold Grammar.catchParameter
  apply (identifier_yields c r).bind
  intro n ts s hn
  exact Gives.expect_bind rfl fun t s₁ ht => Gives.pure (hn.catchParameter ht)

lemma catchClause_yields (hg : g.Faithful) : Yields g.catchClause .catchClause := by
  intro c r
  unfold Grammar.catchClause
  apply (optionally_gives rfl catchParameter_yields).bind
  intro param ts s hparam
  exact (block_yields hg).last fun body us hbody => hparam.catchClause hbody

lemma tryStatement_yields (hg : g.Faithful) : Yields g.tryStatement .statementKind := by
  intro c r
  unfold Grammar.tryStatement
  refine Gives.expect_bind rfl fun t s ht => ?_
  apply (block_yields hg c s).bind
  intro body ts s₁ hbody
  apply (optionally_gives rfl (catchClause_yields hg)).bind
  intro handler us s₂ hhandler
  apply (optionally_gives rfl (block_yields hg)).bind
  intro finalizer vs s₃ hfinalizer
  split
  next =>
    apply Gives.lookahead_bind
    exact Gives.reject _
  next hsome =>
    apply Gives.pure
    rw [List.append_nil]
    refine .tryStatement ht hbody hhandler hfinalizer ?_
    cases handler with
    | some n => exact Or.inl rfl
    | none =>
      cases finalizer with
      | some n => exact Or.inr rfl
      | none => exact absurd rfl hsome

/-- Looking for a function declaration consumes nothing. -/
lemma declaresFunction_bind {α : Type} {f : Bool → Parser α} {Q : α → List Token → Prop}
    (h : ∀ b, Gives c r (f b) Q) : Gives c r (declaresFunction >>= f) Q := by
  unfold declaresFunction
  rw [bind_assoc]
  apply Gives.place_bind
  rw [bind_assoc]
  apply Gives.tokenAt_bind
  rintro ⟨next, after⟩
  dsimp only
  rw [bind_assoc]
  apply Gives.sees_bind
  split
  · split
    · rw [bind_assoc]
      apply Gives.tokenAt_bind
      rintro ⟨name, after'⟩
      exact h _
    · exact h _
  · exact h _

lemma statementKind_yields (hg : g.Faithful) : Yields g.statementKind .statementKind := by
  intro c r
  have hfunction : Gives c r (declaresFunction >>= fun b =>
      if b = true then g.functionDeclaration else g.expressionStatement)
      fun n ts => Derives c (.one .statementKind n) ts := by
    apply declaresFunction_bind
    intro b
    split
    · exact functionDeclaration_yields hg c r
    · exact expressionStatement_yields hg c r
  unfold Grammar.statementKind
  apply Gives.lookahead_bind
  split
  next => exact (block_yields hg c r).mono fun n ts hn => hn.blockStatement
  next =>
    apply (variableDeclaration_yields hg c r).bind
    intro n ts s hn
    exact Gives.last (Gives.accept_gives rfl) fun b us hend => hn.declarationStatement hend
  next => exact ifStatement_yields hg c r
  next => exact hfunction
  next => exact hfunction
  next => exact hfunction
  next => exact forStatement_yields hg c r
  next => exact whileStatement_yields hg c r
  next => exact doWhileStatement_yields hg c r
  next hkind => exact wordStatement_gives hkind rfl .continueStatement
  next hkind => exact wordStatement_gives hkind rfl .breakStatement
  next => exact returnStatement_yields hg c r
  next => exact classDeclaration_yields hg c r
  next => exact throwStatement_yields hg c r
  next => exact tryStatement_yields hg c r
  next => exact expressionStatement_yields hg c r

lemma production_yields (hg : g.Faithful) (goal : Goal) :
    Yields (g.production goal) goal.category := by
  cases goal with
  | statement =>
    intro c r
    apply Gives.nested
    intro hdepth
    exact (statementKind_yields hg c.deeper r).mono fun n ts hn => hn.statement hdepth
  | sequence => exact sequence_yields hg
  | element => exact element_yields hg
  | assignment => exact assignment_yields hg
  | unary => exact unary_yields hg
  | power => exact power_yields hg
  | creation => exact creation_yields hg

/-- Every level of the grammar gives only derived phrases. -/
theorem upTo_faithful (levels : Nat) : (Grammar.upTo levels).Faithful := by
  induction levels with
  | zero =>
    intro goal c r _ n s hrun
    cases hrun
  | succ levels ih =>
    intro goal
    exact production_yields ih goal

lemma program_gives (hg : g.Faithful) : Gives c r g.program fun tree ts => ∃ body,
    tree = .program body ∧ Derives c (.row none .statement body) ts := by
  unfold Grammar.program
  apply Gives.loop fun body ts => Derives c (.row none .statement body.reverse) ts
  · intro body ts s hbody
    unfold Grammar.nextInProgram
    apply Gives.sees_ite
    · intro _
      apply Gives.pure
      change ∃ _, _
      rw [List.append_nil]
      exact ⟨body.reverse, rfl, hbody⟩
    · intro _
      apply (hg .statement).last
      intro n us hn
      change Derives c (.row none .statement (n :: body).reverse) (ts ++ us)
      rw [List.reverse_cons]
      exact hbody.rowItem hn
  · exact .rowNil

/-- An accepted source is a row of statements, made of the tokens of its scan unless a template is
among them. -/
theorem derives_of_parse {source : String} {limit : Nat} {tree : Node}
    (h : parse source limit = .ok tree) :
    ∃ body ts, tree = .program body ∧ Derives ⟨limit, 0, false⟩ (.row none .statement body) ts ∧
      ((∀ t ∈ (scanSource source).1, t.kind ≠ .backtick) →
        ∃ last, last.kind = .endOfFile ∧ tokenize source = .ok (ts ++ [last])) := by
  obtain ⟨token, after, r, hnext, hrun, hend⟩ := programOf_of_parse h
  have hstart := Cursor.lexical_of_next hnext
  obtain ⟨ts, hpass, body, rfl, hbody⟩ := program_gives (upTo_faithful _) hstart tree r hrun
  refine ⟨body, ts, rfl, hbody, fun hplain => ⟨r.lookahead, hend, ?_⟩⟩
  have hscan : scanSource source = Reading.scan ⟨token, after⟩ := Cursor.scan_of_next hnext
  rw [hscan] at hplain
  obtain ⟨htokens, hstop⟩ := hpass.scan hplain
  rw [Reading.scan_of_end hend] at htokens hstop
  rw [tokenize_eq_scan, hscan, htokens, hstop, List.append_nil]
  rfl

end ScriptTree
