import ScriptTree.Proofs.Lockstep

/-!
# The whole grammar keeps in step

One lemma for each production: if the grammars for its parts keep in step, so does the production.
From these, `run_reads` says the same of whole constructs and `program_tries` of programs.
-/

namespace ScriptTree

open ScriptTree.Parser

lemma OperatorLevel.kind_ne_endOfFile : ∀ level ∈ OperatorLevel.all, level.kind ≠ .endOfFile := by
  decide

namespace Lockstep

variable {L : Lockstep} {n m : Nat} {g h : Grammar}

lemma identifier_reads : L.Reads n m Eq identifier identifier := by
  intro c r d s st
  unfold identifier
  refine st.expect_bind rfl fun t u k r s htu hk st => ?_
  rw [L.text_eq htu]
  exact st.pure _ hk

lemma nextItem_turns (close : Kind) {item item' : Parser Node} (items : List Node)
    (hitem : L.Reads n m Eq item item') :
    L.Turns n m (Grammar.nextItem close item items) (Grammar.nextItem close item' items) := by
  intro c r d s st
  unfold Grammar.nextItem
  refine st.sees_ite (fun _ => st.done _ (Nat.le_refl m)) fun _ => ?_
  refine hitem.bind_eq st fun node k r s hk st => ?_
  refine st.sees_ite (fun _ => st.again _ hk) fun _ => ?_
  exact st.expect_skip rfl fun l r s hl st => st.again _ (Nat.lt_trans hl hk)

lemma Grammars.loop {σ α : Type} (hg : L.Grammars n g h) (hm : m < n)
    {turn turn' : σ → Parser (Turn σ α)}
    (hturn : ∀ state {k}, k ≤ m → L.Turns n k (turn state) (turn' state)) (state : σ) :
    L.Tries n m Eq (Parser.loop turn g.bound state) (Parser.loop turn' h.bound state) :=
  loop_tries hturn (Nat.lt_of_lt_of_le hm hg.left) (Nat.lt_of_lt_of_le hm hg.right) state

lemma delimited_reads (hg : L.Grammars n g h) (close : Kind) {item item' : Parser Node}
    (hclose : (close == .endOfFile) = false) (hm : m < n)
    (hitem : ∀ {k}, k ≤ m → L.Reads n k Eq item item') :
    L.Reads n m Eq (g.delimited close item) (h.delimited close item') := by
  intro c r d s st
  unfold Grammar.delimited
  have hloop := hg.loop hm (fun items k hk => nextItem_turns close items (hitem hk)) []
  refine hloop.bind_eq st fun items k r s hk st => ?_
  exact st.expect_skip hclose fun l r s hl st => st.pure _ (by omega)

lemma innerStatement_reads (hg : L.Grammars n g h) (hm : m < n) :
    L.Reads n m Eq g.innerStatement h.innerStatement := by
  intro c r d s st
  unfold Grammar.innerStatement
  exact st.sees_ite (fun _ => st.unexpected) fun _ => hg.parse _ hm st

lemma nextInBlock_turns (hg : L.Grammars n g h) (hm : m < n) (body : List Node) :
    L.Turns n m (g.nextInBlock body) (h.nextInBlock body) := by
  intro c r d s st
  unfold Grammar.nextInBlock
  refine st.sees_ite (fun _ => st.done _ (Nat.le_refl m)) fun hne => ?_
  refine st.sees_ite (fun _ => ?_) fun _ => ?_
  · exact (st.mismatch (Ne.symm hne)).bind fun _ _ _ _ h => False.elim h
  · exact (hg.parse _ hm).bind_eq st fun node k r s hk st => st.again _ hk

lemma block_reads (hg : L.Grammars n g h) : L.Reads n m Eq g.block h.block := by
  intro c r d s st
  unfold Grammar.block
  have hmn := st.bound
  refine st.expect_skip rfl fun k r s hk st => ?_
  have hloop := hg.loop (m := k) (by omega)
    (fun body l hl => nextInBlock_turns hg (by omega) body) []
  refine hloop.bind_eq st fun body l r s hl st => ?_
  exact st.expect_skip rfl fun i r s hi st => st.pure _ (by omega)

lemma parameter_reads (hg : L.Grammars n g h) : L.Reads n m Eq g.parameter h.parameter := by
  intro c r d s st
  unfold Grammar.parameter
  have hmn := st.bound
  refine identifier_reads.bind_eq st fun name k r s hk st => ?_
  refine st.accept_ite rfl (fun l r s hl st => ?_) fun _ => st.pure _ hk
  refine (hg.parse _ (by omega)).bind_eq st fun value i r s hi st => ?_
  exact st.pure _ (by omega)

lemma parameters_reads (hg : L.Grammars n g h) : L.Reads n m Eq g.parameters h.parameters := by
  intro c r d s st
  unfold Grammar.parameters
  have hmn := st.bound
  refine st.expect_skip rfl fun k r s hk st => ?_
  exact (delimited_reads hg .rParen rfl (by omega) fun _ => parameter_reads hg).last st (by omega)

lemma functionBody_reads (hg : L.Grammars n g h) :
    L.Reads n m Eq g.functionBody h.functionBody := by
  unfold Grammar.functionBody
  exact (block_reads hg).inFunction

lemma functionKeyword_reads :
    L.Reads n m Eq Grammar.functionKeyword Grammar.functionKeyword := by
  intro c r d s st
  unfold Grammar.functionKeyword
  refine Agree.lookahead_bind ?_
  rw [← st.kind_eq]
  split
  next hkind => exact st.advance_bind (by simp [hkind]) fun k r s hk st => st.pure _ hk
  next hkind => exact st.advance_bind (by simp [hkind]) fun k r s hk st => st.pure _ hk
  next hne _ => exact st.mismatch (Ne.symm hne)

lemma functionDeclaration_reads (hg : L.Grammars n g h) :
    L.Reads n m Eq g.functionDeclaration h.functionDeclaration := by
  intro c r d s st
  unfold Grammar.functionDeclaration
  refine (accept_tries rfl).bind_eq st fun isAsync k r s hk st => ?_
  refine functionKeyword_reads.bind_eq st fun generator l r s hl st => ?_
  refine identifier_reads.bind_eq st fun id i r s hi st => ?_
  refine (parameters_reads hg).bind_eq st fun params j r s hj st => ?_
  refine (functionBody_reads hg).bind_eq st fun body o r s ho st => ?_
  exact st.pure _ (by omega)

lemma functionTail_reads (hg : L.Grammars n g h) (id : Option Node) (generator isAsync : Bool) :
    L.Reads n m Eq (g.functionTail id generator isAsync) (h.functionTail id generator isAsync) := by
  intro c r d s st
  unfold Grammar.functionTail
  refine (parameters_reads hg).bind_eq st fun params k r s hk st => ?_
  refine (functionBody_reads hg).bind_eq st fun body l r s hl st => ?_
  exact st.pure _ (by omega)

lemma identifier?_tries : L.Tries n m Eq Grammar.identifier? Grammar.identifier? := by
  intro c r d s st
  unfold Grammar.identifier?
  refine st.sees_ite (fun _ => ?_) fun _ => st.pure _ (by omega)
  exact identifier_reads.map_last some st (by omega)

lemma functionExpression_reads (hg : L.Grammars n g h) (isAsync : Bool) :
    L.Reads n m Eq (g.functionExpression isAsync) (h.functionExpression isAsync) := by
  intro c r d s st
  unfold Grammar.functionExpression
  refine functionKeyword_reads.bind_eq st fun generator k r s hk st => ?_
  refine identifier?_tries.bind_eq st fun id l r s hl st => ?_
  exact (functionTail_reads hg id generator isAsync).last st (by omega)

lemma arrowBody_reads (hg : L.Grammars n g h) (hm : m < n) :
    L.Reads n m Eq g.arrowBody h.arrowBody := by
  intro c r d s st
  unfold Grammar.arrowBody
  exact st.sees_ite (fun _ => block_reads hg st) fun _ => hg.parse _ hm st

lemma arrowFunction_reads (hg : L.Grammars n g h) (params : List Node) (isAsync : Bool) :
    L.Reads n m Eq (g.arrowFunction params isAsync) (h.arrowFunction params isAsync) := by
  intro c r d s st
  unfold Grammar.arrowFunction
  have hmn := st.bound
  refine st.expect_skip rfl fun k r s hk st => ?_
  refine (arrowBody_reads hg (by omega)).inFunction.bind_eq st fun body l r s hl st => ?_
  exact st.pure _ (by omega)

lemma parenthesized_reads (hg : L.Grammars n g h) :
    L.Reads n m Eq g.parenthesized h.parenthesized := by
  intro c r d s st
  unfold Grammar.parenthesized
  have hmn := st.bound
  refine st.expect_bind rfl fun t u k r s htu hk st => ?_
  refine st.accept_ite rfl (fun l r s hl st => ?_) fun _ => ?_
  · refine st.sees_ite (fun _ => ?_) fun hne => st.mismatch (Ne.symm hne)
    exact (arrowFunction_reads hg [] false).last st (by omega)
  · refine (hg.parse _ (by omega)).bind_eq st fun body l r s hl st => ?_
    refine st.expect_bind rfl fun t' u' i r s htu' hi st => ?_
    refine st.sees_ite (fun _ => ?_) fun _ => st.pure _ (by omega)
    cases arrowParams? body with
    | some params => exact (arrowFunction_reads hg params false).last st (by omega)
    | none =>
      have hspan := L.span_merge (L.span_token htu) (L.span_token htu')
      exact Agree.reject (L.located .invalidParameters hspan)

lemma asyncExpression_reads (hg : L.Grammars n g h) :
    L.Reads n m Eq g.asyncExpression h.asyncExpression := by
  intro c r d s st
  unfold Grammar.asyncExpression
  refine st.expect_bind rfl fun t u k r s htu hk st => ?_
  have hinvalid : ∀ {r s}, L.Agree (L.Below m Eq) c r d s
      (reject (.invalidAsync t.span) : Parser Node) (reject (.invalidAsync u.span)) :=
    fun {_ _} => Agree.reject (L.located .invalidAsync (L.span_token htu))
  refine Agree.lookahead_bind ?_
  rw [← st.kind_eq]
  split
  · exact (functionExpression_reads hg true).last st (by omega)
  · exact (functionExpression_reads hg true).last st (by omega)
  · refine (parenthesized_reads hg).bind_eq st fun node l r s hl st => ?_
    split
    · exact st.pure _ (by omega)
    · exact hinvalid
  · refine identifier_reads.bind_eq st fun param l r s hl st => ?_
    refine st.sees_ite (fun _ => ?_) fun _ => hinvalid
    exact (arrowFunction_reads hg [param] true).last st (by omega)
  · exact hinvalid

section Literals

variable {c d : Context} {r s : Reading}

lemma numericLiteral_agrees (st : L.Stage n m c r d s) (hkind : r.lookahead.kind ≠ .endOfFile) :
    L.Agree (L.Below m Eq) c r d s numericLiteral numericLiteral := by
  unfold numericLiteral
  have htoken := L.lookahead st.reading
  refine st.advance_bind hkind fun k r' s' hk st' => ?_
  rw [st.text_eq]
  exact Agree.spelled_bind htoken _ fun value _ => st'.pure _ hk

lemma bigIntLiteral_agrees (st : L.Stage n m c r d s) (hkind : r.lookahead.kind ≠ .endOfFile) :
    L.Agree (L.Below m Eq) c r d s bigIntLiteral bigIntLiteral := by
  unfold bigIntLiteral
  refine st.advance_bind hkind fun k r' s' hk st' => ?_
  rw [st.text_eq]
  exact st'.pure _ hk

lemma stringLiteral_agrees (st : L.Stage n m c r d s) (hkind : r.lookahead.kind ≠ .endOfFile) :
    L.Agree (L.Below m Eq) c r d s stringLiteral stringLiteral := by
  unfold stringLiteral
  have htoken := L.lookahead st.reading
  refine st.advance_bind hkind fun k r' s' hk st' => ?_
  rw [st.text_eq]
  exact Agree.spelled_bind htoken _ fun value _ => st'.pure _ hk

end Literals

lemma regexLiteral_reads : L.Reads n m Eq regexLiteral regexLiteral := by
  intro c r d s st
  unfold regexLiteral
  refine st.expect_bind rfl fun t u k r s htu hk st => ?_
  rw [L.text_eq htu]
  refine Agree.spelled_bind htu _ fun parts _ => ?_
  split
  next flag _ => exact Agree.reject (L.located (.invalidRegexFlag flag) (L.span_token htu))
  next => exact st.pure _ hk

lemma acceptStar_tries : L.Tries n m Eq acceptStar acceptStar := by
  intro c r d s st
  unfold acceptStar
  refine Agree.lookahead_bind ?_
  rw [← st.kind_eq, ← st.text_eq]
  split
  next hstar =>
    have hkind : r.lookahead.kind = .multiplicative := by
      simp only [Bool.and_eq_true, beq_iff_eq] at hstar
      exact hstar.1
    exact st.advance_bind (by simp [hkind]) fun k r s hk st => st.pure _ (by omega)
  next => exact st.pure _ (by omega)

section Templates

variable {c d : Context} {r s : Reading}

/-- An inserted expression, from the text in front of it on. -/
lemma insertion_agrees (hg : L.Grammars n g h) (ht : L.templates) (hc : L.context c d) (hm : m ≤ n)
    (hlexeme : r.lookahead.lexeme = s.lookahead.lexeme)
    (hnext : NextAgrees L.reading L.fault m r.cursor.next s.cursor.next) (parts : TemplateParts) :
    L.Agree (L.AfterTurn L.piece m) c r d s
      (advance >>= fun token => expect .lBrace >>= fun _ => g.parse .sequence >>= fun expression =>
        expectInTemplate .rBrace >>= fun _ =>
          pure (.again ((parts.addText token.text).addExpression expression) : Turn _ Node))
      (advance >>= fun token => expect .lBrace >>= fun _ => h.parse .sequence >>= fun expression =>
        expectInTemplate .rBrace >>= fun _ =>
          pure (.again ((parts.addText token.text).addExpression expression) : Turn _ Node)) := by
  have htext : r.lookahead.text = s.lookahead.text := congrArg Prod.snd hlexeme
  refine Agree.advance_bind hnext fun k r' s' hk hr => ?_
  rw [htext]
  have st : L.Stage n k c r' d s' := ⟨by omega, hc, hr⟩
  refine st.expect_skip rfl fun l r s hl st => ?_
  refine (hg.parse _ (by omega)).bind_eq st fun expression i r s hi st => ?_
  exact st.expectInTemplate_skip rfl (fun _ => ht) fun _ j r s hj hpiece =>
    Agree.again hpiece _ (by omega)

/-- Text, with another piece behind it. -/
lemma templateText_agrees {k : Nat} (hlexeme : r.lookahead.lexeme = s.lookahead.lexeme) (hk : k < m)
    (hpiece : L.piece k ⟨r.cursor.nextTemplate.1, r.cursor.nextTemplate.2⟩
      ⟨s.cursor.nextTemplate.1, s.cursor.nextTemplate.2⟩) (parts : TemplateParts) :
    L.Agree (L.AfterTurn L.piece m) c r d s
      (advanceInTemplate >>= fun token => pure (.again (parts.addText token.text) : Turn _ Node))
      (advanceInTemplate >>= fun token => pure (.again (parts.addText token.text) : Turn _ Node)) := by
  have htext : r.lookahead.text = s.lookahead.text := congrArg Prod.snd hlexeme
  change L.Agree (L.AfterTurn L.piece m) c _ d _
    (pure (Turn.again (parts.addText r.lookahead.text) : Turn TemplateParts Node))
    (pure (Turn.again (parts.addText s.lookahead.text) : Turn TemplateParts Node))
  rw [htext]
  exact Agree.again hpiece _ hk

lemma templatePart_agrees (hg : L.Grammars n g h) (ht : L.templates) (hc : L.context c d)
    (hm : m ≤ n) (hpiece : L.piece m r s) (parts : TemplateParts) :
    L.Agree (L.AfterTurn L.piece m) c r d s (g.templatePart parts) (h.templatePart parts) := by
  unfold Grammar.templatePart
  refine Agree.lookahead_bind ?_
  cases L.pieces hpiece with
  | text hlexeme hkind hk hnext =>
    have hkind' : s.lookahead.kind = .templateString := (congrArg Prod.fst hlexeme).symm.trans hkind
    rw [hkind, hkind']
    exact templateText_agrees hlexeme hk hnext parts
  | insertion hlexeme hkind hnext =>
    have hkind' : s.lookahead.kind = .dollarBrace := (congrArg Prod.fst hlexeme).symm.trans hkind
    rw [hkind, hkind']
    exact insertion_agrees hg ht hc hm hlexeme hnext parts
  | token hr =>
    have st : L.Stage n m c r d s := ⟨hm, hc, hr⟩
    have hlexeme : r.lookahead.lexeme = s.lookahead.lexeme := Prod.ext st.kind_eq st.text_eq
    rw [← st.kind_eq]
    split
    next hkind =>
      obtain ⟨k, hk, hnext⟩ := L.nextTemplate ht hr (by simp [hkind])
      exact templateText_agrees hlexeme hk hnext parts
    next hkind => exact insertion_agrees hg ht hc hm hlexeme (L.next hr (by simp [hkind])) parts
    next hkind =>
      refine st.advance_bind (by simp [hkind]) fun k r s hk st => ?_
      exact Agree.done st.reading _ (by omega)
    next _ _ hne => exact st.mismatch (Ne.symm hne)

end Templates

lemma templateLiteral_reads (hg : L.Grammars n g h) :
    L.Reads n m Eq g.templateLiteral h.templateLiteral := by
  intro c r d s st
  unfold Grammar.templateLiteral
  have hmn := st.bound
  have hleft := hg.left
  have hright := hg.right
  refine st.expectInTemplate_skip rfl (L.backtick st.reading) fun ht k r s hk hpiece => ?_
  have hloop := loop_agrees (fun parts l r s hl hpiece =>
    templatePart_agrees hg ht st.context (by omega) hpiece parts)
    (show k < g.bound by omega) (show k < h.bound by omega) ⟨[], [], true⟩ hpiece
  refine hloop.mono fun a r' b s' hbelow => ?_
  obtain ⟨hvalue, l, hl, hr⟩ := hbelow
  exact ⟨hvalue, l, by omega, hr⟩

lemma arrayLiteral_reads (hg : L.Grammars n g h) :
    L.Reads n m Eq g.arrayLiteral h.arrayLiteral := by
  intro c r d s st
  unfold Grammar.arrayLiteral
  have hmn := st.bound
  refine st.expect_skip rfl fun k r s hk st => ?_
  have helements := delimited_reads hg .rBracket (m := k) rfl (by omega)
    fun hl => hg.parse .element (by omega)
  refine helements.bind_eq st fun elements l r s hl st => ?_
  exact st.pure _ (by omega)

lemma propertyKey_reads : L.Reads n m Eq Grammar.propertyKey Grammar.propertyKey := by
  intro c r d s st
  unfold Grammar.propertyKey
  refine Agree.lookahead_bind ?_
  rw [← st.kind_eq]
  split
  next => exact identifier_reads st
  next hkind => exact stringLiteral_agrees st (by simp [hkind])
  next hkind => exact numericLiteral_agrees st (by simp [hkind])
  next =>
    split
    next hkeyword =>
      refine st.advance_bind (Kind.ne_endOfFile_of_isKeyword hkeyword) fun k r' s' hk st' => ?_
      rw [st.text_eq]
      exact st'.pure _ hk
    next => exact st.unexpected

lemma acceptAsyncMethod_tries :
    L.Tries n m Eq Grammar.acceptAsyncMethod Grammar.acceptAsyncMethod := by
  intro c r d s st
  unfold Grammar.acceptAsyncMethod
  refine st.sees_ite (fun hkind => ?_) fun _ => st.pure _ (by omega)
  refine Agree.place_bind (Agree.tokenAt_bind st.reading (by simp [hkind]) fun t a u b l hl => ?_)
  have hnext : t.kind = u.kind := L.kind_eq (L.lookahead hl)
  dsimp only
  rw [hnext]
  split
  · exact st.pure _ (by omega)
  · exact st.advance_bind (by simp [hkind]) fun k r s hk st => st.pure _ (by omega)

lemma propertyTail_tries (hg : L.Grammars n g h) (isAsync generator computed : Bool) (key : Node)
    (hm : m < n) : L.Tries n m Eq (g.propertyTail isAsync generator computed key)
      (h.propertyTail isAsync generator computed key) := by
  intro c r d s st
  unfold Grammar.propertyTail
  have hmethod : L.Agree (L.Below (m + 1) Eq) c r d s
      (g.method generator isAsync >>= fun value => pure (Node.property key value computed true))
      (h.method generator isAsync >>= fun value => pure (Node.property key value computed true)) :=
    (functionTail_reads hg none generator isAsync).bind_eq st fun value l r s hl st =>
      st.pure _ (by omega)
  refine st.sees_bind (fun _ => by simpa using hmethod) fun _ => ?_
  split
  · exact hmethod
  · refine Agree.lookahead_bind ?_
    rw [← st.kind_eq]
    split
    · exact st.pure _ (by omega)
    · refine st.expect_skip rfl fun l r s hl st => ?_
      exact (hg.parse _ (by omega)).bind_eq st fun value i r s hi st => st.pure _ (by omega)

lemma property_reads (hg : L.Grammars n g h) : L.Reads n m Eq g.property h.property := by
  intro c r d s st
  unfold Grammar.property
  have hmn := st.bound
  refine acceptAsyncMethod_tries.bind_eq st fun isAsync k r s hk st => ?_
  refine acceptStar_tries.bind_eq st fun generator l r s hl st => ?_
  refine st.accept_ite rfl (fun i r s hi st => ?_) fun _ => ?_
  · refine (hg.parse _ (by omega)).bind_eq st fun key j r s hj st => ?_
    refine st.expect_skip rfl fun o r s ho st => ?_
    exact (propertyTail_tries hg isAsync generator true key (by omega)).last st (by omega)
  · refine propertyKey_reads.bind_eq st fun key i r s hi st => ?_
    exact (propertyTail_tries hg isAsync generator false key (by omega)).last st (by omega)

lemma objectLiteral_reads (hg : L.Grammars n g h) :
    L.Reads n m Eq g.objectLiteral h.objectLiteral := by
  intro c r d s st
  unfold Grammar.objectLiteral
  have hmn := st.bound
  refine st.expect_skip rfl fun k r s hk st => ?_
  have hproperties := delimited_reads hg .rBrace (m := k) rfl (by omega) fun _ => property_reads hg
  refine hproperties.bind_eq st fun properties l r s hl st => ?_
  exact st.pure _ (by omega)

/-! ### Expressions -/

lemma memberName_reads : L.Reads n m Eq memberName memberName := by
  intro c r d s st
  unfold memberName
  refine st.accept_ite rfl (fun k r s hk st => ?_) fun _ => ?_
  · exact identifier_reads.bind_eq st fun name l r s hl st => st.pure _ (by omega)
  · refine Agree.lookahead_bind ?_
    rw [← st.kind_eq]
    split
    next hkeyword =>
      refine st.advance_bind (Kind.ne_endOfFile_of_isKeyword hkeyword) fun k r' s' hk st' => ?_
      rw [st.text_eq]
      exact st'.pure _ hk
    next => exact identifier_reads st

lemma yieldExpression_reads (hg : L.Grammars n g h) :
    L.Reads n m Eq g.yieldExpression h.yieldExpression := by
  intro c r d s st
  unfold Grammar.yieldExpression
  have hmn := st.bound
  refine st.expect_skip rfl fun k r s hk st => ?_
  refine Agree.lookahead_bind ?_
  rw [← st.kind_eq]
  split
  · exact st.pure _ hk
  · exact (hg.parse _ (by omega)).bind_eq st fun argument l r s hl st => st.pure _ (by omega)

lemma primary_reads (hg : L.Grammars n g h) : L.Reads n m Eq g.primary h.primary := by
  intro c r d s st
  unfold Grammar.primary
  refine Agree.lookahead_bind ?_
  rw [← st.kind_eq]
  split
  next hkind => exact numericLiteral_agrees st (by simp [hkind])
  next hkind => exact bigIntLiteral_agrees st (by simp [hkind])
  next hkind => exact stringLiteral_agrees st (by simp [hkind])
  next => exact regexLiteral_reads st
  next hkind =>
    refine st.advance_bind (by simp [hkind]) fun k r' s' hk st' => ?_
    rw [st.text_eq]
    exact st'.pure _ hk
  next hkind => exact st.advance_bind (by simp [hkind]) fun k r s hk st => st.pure _ hk
  next hkind => exact st.advance_bind (by simp [hkind]) fun k r s hk st => st.pure _ hk
  next hkind => exact st.advance_bind (by simp [hkind]) fun k r s hk st => st.pure _ hk
  next => exact templateLiteral_reads hg st
  next => exact arrayLiteral_reads hg st
  next => exact objectLiteral_reads hg st
  next => exact parenthesized_reads hg st
  next =>
    refine identifier_reads.bind_eq st fun id k r s hk st => ?_
    refine st.sees_ite (fun _ => ?_) fun _ => st.pure _ hk
    exact (arrowFunction_reads hg [id] false).last st (by omega)
  next => exact functionExpression_reads hg false st
  next => exact functionExpression_reads hg false st
  next => exact asyncExpression_reads hg st
  next => exact yieldExpression_reads hg st
  next => exact st.unexpected

lemma arguments_reads (hg : L.Grammars n g h) : L.Reads n m Eq g.arguments h.arguments := by
  intro c r d s st
  unfold Grammar.arguments
  have hmn := st.bound
  refine st.expect_skip rfl fun k r s hk st => ?_
  have hitems := delimited_reads hg .rParen (m := k) rfl (by omega)
    fun hl => hg.parse .element (by omega)
  exact hitems.last st (by omega)

lemma computedMember_reads (hg : L.Grammars n g h) :
    L.Reads n m Eq g.computedMember h.computedMember := by
  intro c r d s st
  unfold Grammar.computedMember
  have hmn := st.bound
  refine st.expect_skip rfl fun k r s hk st => ?_
  refine (hg.parse _ (by omega)).bind_eq st fun member l r s hl st => ?_
  exact st.expect_skip rfl fun i r s hi st => st.pure _ (by omega)

lemma optionalSuffix_reads (hg : L.Grammars n g h) (node : Node) :
    L.Reads n m Eq (g.optionalSuffix node) (h.optionalSuffix node) := by
  intro c r d s st
  unfold Grammar.optionalSuffix
  refine Agree.lookahead_bind ?_
  rw [← st.kind_eq]
  split
  · exact (arguments_reads hg).bind_eq st fun arguments k r s hk st => st.pure _ hk
  · exact (computedMember_reads hg).bind_eq st fun member k r s hk st => st.pure _ hk
  · exact memberName_reads.bind_eq st fun member k r s hk st => st.pure _ hk

lemma suffix_turns (hg : L.Grammars n g h) (calls : Bool) (node : Node) :
    L.Turns n m (g.suffix calls node) (h.suffix calls node) := by
  intro c r d s st
  unfold Grammar.suffix
  refine Agree.lookahead_bind ?_
  rw [← st.kind_eq]
  split
  next hkind =>
    refine st.advance_bind (by simp [hkind]) fun k r s hk st => ?_
    exact memberName_reads.bind_eq st fun member l r s hl st => st.again _ (by omega)
  next =>
    exact (computedMember_reads hg).bind_eq st fun member k r s hk st => st.again _ hk
  next hkind =>
    refine st.advance_bind (by simp [hkind]) fun k r s hk st => ?_
    exact (optionalSuffix_reads hg node).bind_eq st fun node l r s hl st => st.again _ (by omega)
  next => exact (arguments_reads hg).bind_eq st fun arguments k r s hk st => st.again _ hk
  next => exact st.done _ (Nat.le_refl m)

lemma suffixes_tries (hg : L.Grammars n g h) (calls : Bool) (node : Node) (hm : m < n) :
    L.Tries n m Eq (g.suffixes calls node) (h.suffixes calls node) := by
  unfold Grammar.suffixes
  exact hg.loop hm (fun node k hk => suffix_turns hg calls node) node

lemma newBase_reads (hg : L.Grammars n g h) (hm : m < n) :
    L.Reads n m Eq g.newBase h.newBase := by
  intro c r d s st
  unfold Grammar.newBase
  exact st.sees_ite (fun _ => (hg.parse _ hm).nested st) fun _ => primary_reads hg st

lemma optionalArguments_tries (hg : L.Grammars n g h) :
    L.Tries n m Eq g.optionalArguments h.optionalArguments := by
  intro c r d s st
  unfold Grammar.optionalArguments
  refine st.sees_ite (fun _ => ?_) fun _ => st.pure _ (by omega)
  exact (arguments_reads hg).last st (by omega)

lemma creation_reads (hg : L.Grammars n g h) : L.Reads n m Eq g.creation h.creation := by
  intro c r d s st
  unfold Grammar.creation
  have hmn := st.bound
  refine st.expect_skip rfl fun k r s hk st => ?_
  refine (newBase_reads hg (by omega)).bind_eq st fun base l r s hl st => ?_
  refine (suffixes_tries hg false base (by omega)).bind_eq st fun callee i r s hi st => ?_
  refine (optionalArguments_tries hg).bind_eq st fun arguments j r s hj st => ?_
  exact st.pure _ (by omega)

lemma base_reads (hg : L.Grammars n g h) : L.Reads n m Eq g.base h.base := by
  intro c r d s st
  unfold Grammar.base
  exact st.sees_ite (fun _ => creation_reads hg st) fun _ => primary_reads hg st

lemma suffixed_reads (hg : L.Grammars n g h) : L.Reads n m Eq g.suffixed h.suffixed := by
  intro c r d s st
  unfold Grammar.suffixed
  have hmn := st.bound
  refine (base_reads hg).bind_eq st fun base k r s hk st => ?_
  refine (suffixes_tries hg true base (by omega)).bind_eq st fun expression l r s hl st => ?_
  refine st.sees_ite (fun hkind => ?_) fun _ => st.pure _ (by omega)
  split
  · have htoken := L.lookahead st.reading
    refine st.advance_bind (by simp [hkind]) fun i r' s' hi st' => ?_
    rw [st.text_eq]
    exact Agree.spelled_bind htoken _ fun operator _ => st'.pure _ (by omega)
  · exact Agree.lookahead_bind (st.reject .invalidAssignmentTarget)

lemma operand_reads (hg : L.Grammars n g h) : L.Reads n m Eq g.operand h.operand := by
  intro c r d s st
  unfold Grammar.operand
  have hmn := st.bound
  have htoken := L.lookahead st.reading
  have hunary : ∀ k r' s', k < m → L.Stage n k c r' d s' → L.Agree (L.Below m Eq) c r' d s'
      (spelled r.lookahead (UnaryOperator.ofText? r.lookahead.text) >>= fun operator =>
          g.parse .unary >>= fun argument => pure (Node.unaryExpression operator argument))
        (spelled s.lookahead (UnaryOperator.ofText? s.lookahead.text) >>= fun operator =>
          h.parse .unary >>= fun argument => pure (Node.unaryExpression operator argument)) := by
    intro k r' s' hk st'
    rw [st.text_eq]
    refine Agree.spelled_bind htoken _ fun operator _ => ?_
    exact (hg.parse _ (by omega)).bind_eq st' fun argument l r s hl st => st.pure _ (by omega)
  refine Agree.lookahead_bind ?_
  rw [← st.kind_eq]
  split
  next hkind => exact st.advance_bind (by simp [hkind]) hunary
  next hkind => exact st.advance_bind (by simp [hkind]) hunary
  next hkind =>
    refine st.advance_bind (by simp [hkind]) fun k r' s' hk st' => ?_
    rw [st.text_eq]
    refine Agree.spelled_bind htoken _ fun operator _ => ?_
    refine (hg.parse _ (by omega)).bind_eq st' fun argument l r s hl st => ?_
    split
    · exact st.pure _ (by omega)
    · exact Agree.reject (L.located .invalidAssignmentTarget (L.span_token htoken))
  next hkind =>
    refine st.advance_bind (by simp [hkind]) fun k r s hk st => ?_
    exact (hg.parse _ (by omega)).bind_eq st fun argument l r s hl st => st.pure _ (by omega)
  next => exact suffixed_reads hg st

lemma unary_reads (hg : L.Grammars n g h) : L.Reads n m Eq g.unary h.unary := by
  unfold Grammar.unary
  exact (operand_reads hg).nested

lemma power_reads (hg : L.Grammars n g h) : L.Reads n m Eq g.power h.power := by
  intro c r d s st
  unfold Grammar.power
  have hmn := st.bound
  refine (unary_reads hg).bind_eq st fun left k r s hk st => ?_
  refine st.sees_ite (fun hkind => ?_) fun _ => st.pure _ hk
  have htoken := L.lookahead st.reading
  refine st.advance_bind (by simp [hkind]) fun l r' s' hl st' => ?_
  rw [st.text_eq]
  refine Agree.spelled_bind htoken _ fun operator _ => ?_
  refine (hg.parse _ (by omega)).nested.bind_eq st' fun right i r s hi st => ?_
  exact st.pure _ (by omega)

lemma nextOperand_turns (level : OperatorLevel) {p q : Parser Node}
    (hlevel : level.kind ≠ .endOfFile) (hp : ∀ {k}, k ≤ m → L.Reads n k Eq p q) (left : Node) :
    L.Turns n m (Grammar.nextOperand level p left) (Grammar.nextOperand level q left) := by
  intro c r d s st
  unfold Grammar.nextOperand
  refine st.sees_ite (fun hkind => ?_) fun _ => st.done _ (Nat.le_refl m)
  have htoken := L.lookahead st.reading
  refine st.advance_bind (hkind ▸ hlevel) fun k r' s' hk st' => ?_
  rw [st.text_eq]
  refine Agree.spelled_bind htoken _ fun join _ => ?_
  exact (hp (Nat.le_of_lt hk)).bind_eq st' fun right l r s hl st => st.again _ (by omega)

lemma leftGrouped_reads (hg : L.Grammars n g h) (level : OperatorLevel) {p q : Parser Node}
    (hlevel : level.kind ≠ .endOfFile) (hp : ∀ {k}, k ≤ m → L.Reads n k Eq p q) :
    L.Reads n m Eq (g.leftGrouped level p) (h.leftGrouped level q) := by
  intro c r d s st
  unfold Grammar.leftGrouped
  have hmn := st.bound
  refine (hp (Nat.le_refl m)).bind_eq st fun left k r s hk st => ?_
  have hloop := hg.loop (m := k) (by omega)
    (fun left l hl => nextOperand_turns level hlevel (fun hi => hp (by omega)) left) left
  exact hloop.last st hk

/-- The part of the ladder from a level on. -/
lemma ladder_reads (hg : L.Grammars n g h) {levels : List OperatorLevel}
    (hlevels : ∀ level ∈ levels, level.kind ≠ .endOfFile) :
    L.Reads n m Eq (levels.foldr g.leftGrouped g.power) (levels.foldr h.leftGrouped h.power) := by
  -- from the loosest level inwards, each level reads its operands at the next one
  induction levels generalizing m with
  | nil => exact power_reads hg
  | cons level levels ih =>
    have hrest := fun l hl => hlevels l (List.mem_cons_of_mem level hl)
    exact leftGrouped_reads hg level (hlevels level List.mem_cons_self) fun _ => ih hrest

lemma operation_reads (hg : L.Grammars n g h) : L.Reads n m Eq g.operation h.operation :=
  ladder_reads hg OperatorLevel.kind_ne_endOfFile

lemma assignment_reads (hg : L.Grammars n g h) : L.Reads n m Eq g.assignment h.assignment := by
  intro c r d s st
  unfold Grammar.assignment
  have hmn := st.bound
  refine (operation_reads hg).bind_eq st fun id k r s hk st => ?_
  refine Agree.lookahead_bind ?_
  have htoken := L.lookahead st.reading
  rw [← st.kind_eq]
  split
  next hkind =>
    split
    · have hne : r.lookahead.kind ≠ .endOfFile := by
        intro hend
        rw [hend] at hkind
        cases hkind
      refine st.advance_bind hne fun l r' s' hl st' => ?_
      rw [st.text_eq, st.kind_eq]
      refine Agree.spelled_bind htoken _ fun operator _ => ?_
      refine (hg.parse _ (by omega)).nested.bind_eq st' fun value i r s hi st => ?_
      split
      · exact st.pure _ (by omega)
      · exact st.pure _ (by omega)
    · exact st.reject .invalidAssignmentTarget
  next => exact st.pure _ hk

lemma element_reads (hg : L.Grammars n g h) : L.Reads n m Eq g.element h.element := by
  intro c r d s st
  unfold Grammar.element
  exact st.sees_ite (fun _ => yieldExpression_reads hg st) fun _ => assignment_reads hg st

lemma nextInSequence_turns (hg : L.Grammars n g h) (expressions : List Node) :
    L.Turns n m (g.nextInSequence expressions) (h.nextInSequence expressions) := by
  intro c r d s st
  unfold Grammar.nextInSequence
  refine st.accept_ite rfl (fun k r s hk st => ?_) fun _ => st.done _ (Nat.le_refl m)
  exact (element_reads hg).bind_eq st fun node l r s hl st => st.again _ (by omega)

lemma sequence_reads (hg : L.Grammars n g h) : L.Reads n m Eq g.sequence h.sequence := by
  intro c r d s st
  unfold Grammar.sequence
  have hmn := st.bound
  refine (element_reads hg).bind_eq st fun first k r s hk st => ?_
  refine st.sees_ite (fun _ => ?_) fun _ => st.pure _ hk
  have hloop := hg.loop (m := k) (by omega)
    (fun expressions l hl => nextInSequence_turns hg expressions) [first]
  exact hloop.last st hk

/-! ### Classes -/

lemma acceptModifier_tries (kind : Kind) (hkind : (kind == .endOfFile) = false) :
    L.Tries n m Eq (acceptModifier kind) (acceptModifier kind) := by
  intro c r d s st
  unfold acceptModifier
  refine st.sees_ite (fun hr => ?_) fun _ => st.pure _ (by omega)
  have hend : r.lookahead.kind ≠ .endOfFile := hr ▸ ne_of_beq_false hkind
  refine Agree.place_bind (Agree.tokenAt_bind st.reading hend fun t a u b l hl => ?_)
  have hnext : t.kind = u.kind := L.kind_eq (L.lookahead hl)
  dsimp only
  rw [hnext]
  split
  · exact st.pure _ (by omega)
  · exact st.advance_bind hend fun k r s hk st => st.pure _ (by omega)

lemma memberKey_reads : L.Reads n m Eq memberKey memberKey := by
  intro c r d s st
  unfold memberKey
  refine Agree.lookahead_bind ?_
  rw [← st.kind_eq]
  split
  next hkey =>
    have hend : r.lookahead.kind ≠ .endOfFile := by
      intro hend
      rw [hend] at hkey
      cases hkey
    refine st.advance_bind hend fun k r' s' hk st' => ?_
    rw [st.text_eq]
    exact st'.pure _ hk
  next => exact st.reject .invalidClassMember

lemma classPropertyTail_tries (hg : L.Grammars n g h) (isStatic isPrivate : Bool) (key : Node)
    (hm : m < n) : L.Tries n m Eq (g.classPropertyTail isStatic isPrivate key)
      (h.classPropertyTail isStatic isPrivate key) := by
  intro c r d s st
  unfold Grammar.classPropertyTail
  have hvalue : L.Tries n m Eq (optionally .assignment (g.parse .assignment))
      (optionally .assignment (h.parse .assignment)) :=
    optionally_tries rfl fun hk => hg.parse _ (by omega)
  refine hvalue.bind_eq st fun value k r s hk st => ?_
  refine (accept_tries rfl).bind_eq st fun _ l r s hl st => ?_
  split
  · exact st.pure _ (by omega)
  · exact st.pure _ (by omega)

lemma classMember_reads (hg : L.Grammars n g h) : L.Reads n m Eq g.classMember h.classMember := by
  intro c r d s st
  unfold Grammar.classMember
  have hmn := st.bound
  have hstart := st.span
  refine Agree.lookahead_bind ?_
  refine (acceptModifier_tries .kwStatic rfl).bind_eq st fun isStatic k r s hk st => ?_
  refine (acceptModifier_tries .kwAsync rfl).bind_eq st fun isAsync l r s hl st => ?_
  refine acceptStar_tries.bind_eq st fun generator i r s hi st => ?_
  refine (accept_tries rfl).bind_eq st fun isPrivate j r s hj st => ?_
  refine memberKey_reads.bind_eq st fun name o r s ho st => ?_
  refine st.sees_ite (fun _ => ?_) fun _ => ?_
  · refine (functionTail_reads hg none generator isAsync).bind_eq st fun value q r s hq st => ?_
    exact st.pure _ (by omega)
  · split
    · exact Agree.reject (L.located .invalidClassMember (L.span_merge hstart st.span))
    · exact (classPropertyTail_tries hg isStatic isPrivate _ (by omega)).last st (by omega)

lemma nextMember_turns (hg : L.Grammars n g h) (members : List Node) :
    L.Turns n m (g.nextMember members) (h.nextMember members) := by
  intro c r d s st
  unfold Grammar.nextMember
  refine st.sees_ite (fun _ => st.done _ (Nat.le_refl m)) fun hne => ?_
  refine st.accept_ite rfl (fun k r s hk st => st.again _ hk) fun _ => ?_
  refine st.sees_ite (fun _ => ?_) fun _ => ?_
  · exact (st.mismatch (Ne.symm hne)).bind fun _ _ _ _ h => False.elim h
  · exact (classMember_reads hg).bind_eq st fun member k r s hk st => st.again _ hk

lemma classBody_reads (hg : L.Grammars n g h) : L.Reads n m Eq g.classBody h.classBody := by
  intro c r d s st
  unfold Grammar.classBody
  have hmn := st.bound
  refine st.expect_skip rfl fun k r s hk st => ?_
  have hloop := hg.loop (m := k) (by omega) (fun members l hl => nextMember_turns hg members) []
  refine hloop.bind_eq st fun members l r s hl st => ?_
  exact st.expect_skip rfl fun i r s hi st => st.pure _ (by omega)

lemma heritage_reads (hg : L.Grammars n g h) : L.Reads n m Eq g.heritage h.heritage := by
  intro c r d s st
  unfold Grammar.heritage
  have hmn := st.bound
  refine identifier_reads.bind_eq st fun base k r s hk st => ?_
  exact (suffixes_tries hg false base (by omega)).last st hk

lemma classDeclaration_reads (hg : L.Grammars n g h) :
    L.Reads n m Eq g.classDeclaration h.classDeclaration := by
  intro c r d s st
  unfold Grammar.classDeclaration
  refine st.expect_skip rfl fun k r s hk st => ?_
  refine identifier_reads.bind_eq st fun id l r s hl st => ?_
  refine (optionally_tries rfl fun _ => heritage_reads hg).bind_eq st fun superClass i r s hi st => ?_
  refine (classBody_reads hg).bind_eq st fun body j r s hj st => ?_
  exact st.pure _ (by omega)

/-! ### Statements -/

lemma declaresFunction_agrees {c d : Context} {r s : Reading} (st : L.Stage n m c r d s)
    (hkind : r.lookahead.kind ≠ .endOfFile) :
    L.Agree (L.Below (m + 1) Eq) c r d s declaresFunction declaresFunction := by
  unfold declaresFunction
  refine Agree.place_bind (Agree.tokenAt_bind st.reading hkind fun t a u b l hl => ?_)
  have hnext : t.kind = u.kind := L.kind_eq (L.lookahead hl)
  dsimp only
  refine st.sees_ite (fun _ => ?_) fun _ => ?_
  · rw [← hnext]
    split
    next hfunction =>
      have hend : t.kind ≠ .endOfFile := by
        intro hend
        rw [hend] at hfunction
        cases hfunction
      refine Agree.tokenAt_bind hl hend fun t' a' u' b' i hi => ?_
      dsimp only
      rw [L.kind_eq (L.lookahead hi)]
      exact st.pure _ (by omega)
    next => exact st.pure _ (by omega)
  · rw [hnext]
    exact st.pure _ (by omega)

lemma expressionStatement_reads (hg : L.Grammars n g h) :
    L.Reads n m Eq g.expressionStatement h.expressionStatement := by
  intro c r d s st
  unfold Grammar.expressionStatement
  refine (sequence_reads hg).bind_eq st fun expression k r s hk st => ?_
  exact (accept_tries rfl).bind_eq st fun _ l r s hl st => st.pure _ (by omega)

lemma variableDeclaration_reads (hg : L.Grammars n g h) :
    L.Reads n m Eq g.variableDeclaration h.variableDeclaration := by
  intro c r d s st
  unfold Grammar.variableDeclaration
  have hmn := st.bound
  refine st.expect_bind rfl fun t u k r s htu hk st => ?_
  rw [L.text_eq htu]
  refine Agree.spelled_bind htu _ fun kind _ => ?_
  refine identifier_reads.bind_eq st fun id l r s hl st => ?_
  have hvalue : L.Tries n l Eq (optionally .assignment (g.parse .sequence))
      (optionally .assignment (h.parse .sequence)) :=
    optionally_tries rfl fun hk => hg.parse _ (by omega)
  exact hvalue.bind_eq st fun value i r s hi st => st.pure _ (by omega)

lemma condition_reads (hg : L.Grammars n g h) : L.Reads n m Eq g.condition h.condition := by
  intro c r d s st
  unfold Grammar.condition
  have hmn := st.bound
  refine st.expect_skip rfl fun k r s hk st => ?_
  refine (hg.parse _ (by omega)).bind_eq st fun test l r s hl st => ?_
  exact st.expect_skip rfl fun i r s hi st => st.pure _ (by omega)

lemma ifStatement_reads (hg : L.Grammars n g h) : L.Reads n m Eq g.ifStatement h.ifStatement := by
  intro c r d s st
  unfold Grammar.ifStatement
  have hmn := st.bound
  refine st.expect_skip rfl fun k r s hk st => ?_
  refine (condition_reads hg).bind_eq st fun test l r s hl st => ?_
  refine (innerStatement_reads hg (by omega)).bind_eq st fun consequent i r s hi st => ?_
  have halternate : L.Tries n i Eq (optionally .kwElse g.innerStatement)
      (optionally .kwElse h.innerStatement) :=
    optionally_tries rfl fun hk => innerStatement_reads hg (by omega)
  exact halternate.bind_eq st fun alternate j r s hj st => st.pure _ (by omega)

lemma loopBody_reads (hg : L.Grammars n g h) (hm : m < n) :
    L.Reads n m Eq g.loopBody h.loopBody := by
  intro c r d s st
  unfold Grammar.loopBody
  refine st.sees_ite (fun _ => block_reads hg st) fun _ => ?_
  exact (innerStatement_reads hg hm).bind_eq st fun body k r s hk st => st.pure _ hk

lemma sequenceUnless_tries (hg : L.Grammars n g h) (ending : Kind) (hm : m < n) :
    L.Tries n m Eq (g.sequenceUnless ending) (h.sequenceUnless ending) := by
  intro c r d s st
  unfold Grammar.sequenceUnless
  refine st.sees_ite (fun _ => st.pure _ (by omega)) fun _ => ?_
  exact (hg.parse _ hm).map_last some st (by omega)

lemma loopClause_reads (hg : L.Grammars n g h) (ending : Kind)
    (hending : (ending == .endOfFile) = false) (hm : m < n) :
    L.Reads n m Eq (g.loopClause ending) (h.loopClause ending) := by
  intro c r d s st
  unfold Grammar.loopClause
  refine (sequenceUnless_tries hg ending hm).bind_eq st fun clause k r s hk st => ?_
  exact st.expect_skip hending fun l r s hl st => st.pure _ (by omega)

lemma loopStart_tries (hg : L.Grammars n g h) (hm : m < n) :
    L.Tries n m Eq g.loopStart h.loopStart := by
  intro c r d s st
  unfold Grammar.loopStart
  refine Agree.lookahead_bind ?_
  rw [← st.kind_eq]
  split
  · exact st.pure _ (by omega)
  · exact (variableDeclaration_reads hg).map_last some st (by omega)
  · exact (hg.parse _ hm).map_last some st (by omega)

lemma forStatement_reads (hg : L.Grammars n g h) :
    L.Reads n m Eq g.forStatement h.forStatement := by
  intro c r d s st
  unfold Grammar.forStatement
  have hmn := st.bound
  refine st.expect_skip rfl fun k r s hk st => ?_
  refine st.expect_skip rfl fun l r s hl st => ?_
  refine (loopStart_tries hg (by omega)).bind_eq st fun init i r s hi st => ?_
  refine st.sees_ite (fun hkind => ?_) fun _ => ?_
  · cases init with
    | none => exact st.unexpected
    | some left =>
      refine st.advance_bind (by simp [hkind]) fun j r s hj st => ?_
      refine (hg.parse _ (by omega)).bind_eq st fun right o r s ho st => ?_
      refine st.expect_skip rfl fun q r s hq st => ?_
      exact (loopBody_reads hg (by omega)).bind_eq st fun body v r s hv st => st.pure _ (by omega)
  · refine st.expect_skip rfl fun j r s hj st => ?_
    refine (loopClause_reads hg .semicolon rfl (by omega)).bind_eq st fun test o r s ho st => ?_
    refine (loopClause_reads hg .rParen rfl (by omega)).bind_eq st fun update q r s hq st => ?_
    exact (loopBody_reads hg (by omega)).bind_eq st fun body v r s hv st => st.pure _ (by omega)

lemma whileStatement_reads (hg : L.Grammars n g h) :
    L.Reads n m Eq g.whileStatement h.whileStatement := by
  intro c r d s st
  unfold Grammar.whileStatement
  have hmn := st.bound
  refine st.expect_skip rfl fun k r s hk st => ?_
  refine (condition_reads hg).bind_eq st fun test l r s hl st => ?_
  exact (innerStatement_reads hg (by omega)).bind_eq st fun body i r s hi st => st.pure _ (by omega)

lemma doWhileStatement_reads (hg : L.Grammars n g h) :
    L.Reads n m Eq g.doWhileStatement h.doWhileStatement := by
  intro c r d s st
  unfold Grammar.doWhileStatement
  have hmn := st.bound
  refine st.expect_skip rfl fun k r s hk st => ?_
  refine (innerStatement_reads hg (by omega)).bind_eq st fun body l r s hl st => ?_
  refine st.expect_skip rfl fun i r s hi st => ?_
  refine (condition_reads hg).bind_eq st fun test j r s hj st => ?_
  exact (accept_tries rfl).bind_eq st fun _ o r s ho st => st.pure _ (by omega)

lemma wordStatement_agrees (node : Node) {c d : Context} {r s : Reading} (st : L.Stage n m c r d s)
    (hkind : r.lookahead.kind ≠ .endOfFile) :
    L.Agree (L.Below m Eq) c r d s (Grammar.wordStatement node) (Grammar.wordStatement node) := by
  unfold Grammar.wordStatement
  refine st.advance_bind hkind fun k r s hk st => ?_
  exact (accept_tries rfl).bind_eq st fun _ l r s hl st => st.pure _ (by omega)

lemma returnArgument_tries (hg : L.Grammars n g h) (hm : m < n) :
    L.Tries n m Eq g.returnArgument h.returnArgument := by
  intro c r d s st
  unfold Grammar.returnArgument
  refine Agree.lookahead_bind ?_
  rw [← st.kind_eq]
  split
  · exact st.pure _ (by omega)
  · exact (hg.parse _ hm).map_last some st (by omega)

lemma returnStatement_reads (hg : L.Grammars n g h) :
    L.Reads n m Eq g.returnStatement h.returnStatement := by
  intro c r d s st
  have hmn := st.bound
  have hbody : L.Agree (L.Below m Eq) c r d s
      (expect .kwReturn >>= fun _ => g.returnArgument >>= fun argument =>
        accept .semicolon >>= fun _ => pure (Node.returnStatement argument))
      (expect .kwReturn >>= fun _ => h.returnArgument >>= fun argument =>
        accept .semicolon >>= fun _ => pure (Node.returnStatement argument)) := by
    refine st.expect_skip rfl fun k r s hk st => ?_
    refine (returnArgument_tries hg (by omega)).bind_eq st fun argument l r s hl st => ?_
    exact (accept_tries rfl).bind_eq st fun _ i r s hi st => st.pure _ (by omega)
  unfold Grammar.returnStatement
  change L.Agree _ c r d s (if c.inFunction = true then _ else _)
    (if d.inFunction = true then _ else _)
  rcases L.mayReturn (a := r.lookahead.span) st.context with heq | ⟨hoff, hexcused⟩
  · rw [heq]
    split
    · exact hbody
    · exact Agree.lookahead_bind (st.reject .returnOutsideFunction)
  · rw [hoff]
    exact Outcome.excused hexcused

lemma throwStatement_reads (hg : L.Grammars n g h) :
    L.Reads n m Eq g.throwStatement h.throwStatement := by
  intro c r d s st
  unfold Grammar.throwStatement
  have hmn := st.bound
  refine st.expect_skip rfl fun k r s hk st => ?_
  refine (hg.parse _ (by omega)).bind_eq st fun argument l r s hl st => ?_
  exact (accept_tries rfl).bind_eq st fun _ i r s hi st => st.pure _ (by omega)

lemma catchParameter_reads :
    L.Reads n m Eq Grammar.catchParameter Grammar.catchParameter := by
  intro c r d s st
  unfold Grammar.catchParameter
  refine identifier_reads.bind_eq st fun param k r s hk st => ?_
  exact st.expect_skip rfl fun l r s hl st => st.pure _ (by omega)

lemma catchClause_reads (hg : L.Grammars n g h) : L.Reads n m Eq g.catchClause h.catchClause := by
  intro c r d s st
  unfold Grammar.catchClause
  refine (optionally_tries rfl fun _ => catchParameter_reads).bind_eq st fun param k r s hk st => ?_
  exact (block_reads hg).bind_eq st fun body l r s hl st => st.pure _ (by omega)

lemma tryStatement_reads (hg : L.Grammars n g h) :
    L.Reads n m Eq g.tryStatement h.tryStatement := by
  intro c r d s st
  unfold Grammar.tryStatement
  refine st.expect_skip rfl fun k r s hk st => ?_
  refine (block_reads hg).bind_eq st fun body l r s hl st => ?_
  refine (optionally_tries rfl fun _ => catchClause_reads hg).bind_eq st fun handler i r s hi st => ?_
  refine (optionally_tries rfl fun _ => block_reads hg).bind_eq st fun finalizer j r s hj st => ?_
  split
  · exact Agree.lookahead_bind (st.reject .missingHandler)
  · exact st.pure _ (by omega)

lemma functionStatement_agrees (hg : L.Grammars n g h) {c d : Context} {r s : Reading}
    (st : L.Stage n m c r d s) (hkind : r.lookahead.kind ≠ .endOfFile) :
    L.Agree (L.Below m Eq) c r d s
      (declaresFunction >>= fun declares =>
        if declares = true then g.functionDeclaration else g.expressionStatement)
      (declaresFunction >>= fun declares =>
        if declares = true then h.functionDeclaration else h.expressionStatement) := by
  refine (declaresFunction_agrees st hkind).bind fun a r' b s' hpost => ?_
  obtain ⟨rfl, k, hk, hr⟩ := hpost
  have hkm : k ≤ m := Nat.le_of_lt_succ hk
  have st' : L.Stage n k c r' d s' := ⟨Nat.le_trans hkm st.bound, st.context, hr⟩
  split
  · exact (functionDeclaration_reads hg).last st' hkm
  · exact (expressionStatement_reads hg).last st' hkm

lemma statementKind_reads (hg : L.Grammars n g h) :
    L.Reads n m Eq g.statementKind h.statementKind := by
  intro c r d s st
  unfold Grammar.statementKind
  refine Agree.lookahead_bind ?_
  rw [← st.kind_eq]
  split
  next => exact block_reads hg st
  next =>
    refine (variableDeclaration_reads hg).bind_eq st fun declaration k r s hk st => ?_
    exact (accept_tries rfl).bind_eq st fun _ l r s hl st => st.pure _ (by omega)
  next => exact ifStatement_reads hg st
  next hkind => exact functionStatement_agrees hg st (by simp [hkind])
  next hkind => exact functionStatement_agrees hg st (by simp [hkind])
  next hkind => exact functionStatement_agrees hg st (by simp [hkind])
  next => exact forStatement_reads hg st
  next => exact whileStatement_reads hg st
  next => exact doWhileStatement_reads hg st
  next hkind => exact wordStatement_agrees _ st (by simp [hkind])
  next hkind => exact wordStatement_agrees _ st (by simp [hkind])
  next => exact returnStatement_reads hg st
  next => exact classDeclaration_reads hg st
  next => exact throwStatement_reads hg st
  next => exact tryStatement_reads hg st
  next => exact expressionStatement_reads hg st

lemma production_reads (hg : L.Grammars n g h) (goal : Goal) :
    L.Reads n m Eq (g.production goal) (h.production goal) := by
  cases goal with
  | statement => exact (statementKind_reads hg).nested
  | sequence => exact sequence_reads hg
  | element => exact element_reads hg
  | assignment => exact assignment_reads hg
  | unary => exact unary_reads hg
  | power => exact power_reads hg
  | creation => exact creation_reads hg

/-- Grammars with enough levels keep in step on every construct. -/
theorem run_reads (goal : Goal) {i j : Nat} (hi : m < i) (hj : m < j) :
    L.Reads n m Eq (Grammar.run i goal) (Grammar.run j goal) := by
  induction i generalizing n m j goal with
  | zero => omega
  | succ i ih =>
    cases j with
    | zero => omega
    | succ j =>
      intro c r d s st
      have hgrammars : L.Grammars (min i j) ⟨i, Grammar.run i⟩ ⟨j, Grammar.run j⟩ := {
        left := Nat.min_le_left i j
        right := Nat.min_le_right i j
        parse := fun goal k hk => ih goal (by omega) (by omega) }
      exact production_reads hgrammars goal ⟨by omega, st.context, st.reading⟩

lemma upTo_grammars (i j : Nat) :
    L.Grammars (min i j) (Grammar.upTo i) (Grammar.upTo j) where
  left := Nat.min_le_left i j
  right := Nat.min_le_right i j
  parse := fun goal _ _ => run_reads goal (by omega) (by omega)

lemma nextInProgram_turns (hg : L.Grammars n g h) (hm : m < n) (body : List Node) :
    L.Turns n m (g.nextInProgram body) (h.nextInProgram body) := by
  intro c r d s st
  unfold Grammar.nextInProgram
  refine st.sees_ite (fun _ => st.done _ (Nat.le_refl m)) fun _ => ?_
  exact (hg.parse .statement hm).bind_eq st fun node k r s hk st => st.again _ hk

lemma Grammars.program (hg : L.Grammars n g h) (hm : m < n) :
    L.Tries n m Eq g.program h.program :=
  hg.loop hm (fun body _ _ => nextInProgram_turns hg (by omega) body) []

/-- Two readings of whole programs keep in step. -/
theorem program_tries {i j : Nat} (hi : m < i) (hj : m < j) :
    L.Tries n m Eq (Grammar.upTo i).program (Grammar.upTo j).program := by
  intro c r d s st
  exact (upTo_grammars i j).program (by omega) ⟨by omega, st.context, st.reading⟩

end Lockstep

end ScriptTree
