import ScriptTree.Proofs.Blind
import ScriptTree.Proofs.FreeReturns

/-!
# Statements outside of functions

A statement is read in a function and outside of it in the same way, up to its first free `return`:
in a function it is read on, and outside the source is refused at that word. One rule for each way
to make a parser, then one lemma for each production that may hold a statement.

Main statement: `program_exposes`.
-/

namespace ScriptTree

open ScriptTree.Parser

/-- What a run outside of functions comes to, beside the same run in a function. -/
inductive Exposed {α : Type} (r : Reading) (Q : α → List Token → List Token → Prop) :
    Except Interrupt (α × Reading) → Except Interrupt (α × Reading) → Prop where
  | ok {a : α} {s : Reading} {ts : List Token} (hpass : Passes r ts s) (h : Q a ts []) :
      Exposed r Q (.ok (a, s)) (.ok (a, s))
  /-- Only the first run is refused, at the first free `return`. -/
  | free {a : α} {s : Reading} {ts rs : List Token} {t : Token} (hpass : Passes r ts s)
      (h : Q a ts (t :: rs)) :
      Exposed r Q (.error (.rejected (.returnOutsideFunction t.span))) (.ok (a, s))
  | error {i j : Interrupt} : Exposed r Q (.error i) (.error j)

/-- Every run of a parser exposes its free `return`s, which are related to what it gives. -/
def Exposes {α : Type} (c : Context) (r : Reading) (p : Parser α)
    (Q : α → List Token → List Token → Prop) : Prop :=
  r.lookahead.Lexical → Exposed r Q (p c r) (p c.inside r)

namespace Exposes

variable {α β σ : Type} {c : Context} {r : Reading} {kind : Kind}
  {Q : α → List Token → List Token → Prop} {P : β → List Token → List Token → Prop}

lemma mono {p : Parser α} {R : α → List Token → List Token → Prop} (h : Exposes c r p R)
    (hRQ : ∀ a ts rs, R a ts rs → Q a ts rs) : Exposes c r p Q := by
  intro hr
  have hout := h hr
  generalize p c r = x at hout ⊢
  generalize p c.inside r = y at hout ⊢
  cases hout with
  | ok hpass h => exact .ok hpass (hRQ _ _ _ h)
  | free hpass h => exact .free hpass (hRQ _ _ _ h)
  | error => exact .error

lemma pure {a : α} (h : Q a [] []) : Exposes c r (Pure.pure a) Q :=
  fun _ => .ok (Passes.refl r) h

lemma reject (e : SyntaxError) : Exposes c r (Parser.reject e) Q :=
  fun _ => .error

lemma unexpected : Exposes c r Parser.unexpected Q :=
  fun _ => .error

lemma mismatch_bind {f : β → Parser α} : Exposes c r (Parser.mismatch kind >>= f) Q :=
  fun _ => .error

/-- What is behind a free `return` is read in a function only. -/
lemma bind {p : Parser β} {f : β → Parser α} (hp : Exposes c r p P)
    (hf : ∀ b ts rs s, P b ts rs → Exposes c s (f b) fun a us qs => Q a (ts ++ us) (rs ++ qs)) :
    Exposes c r (p >>= f) Q := by
  intro hr
  have hout := hp hr
  simp only [Bind.bind]
  generalize p c r = x at hout ⊢
  generalize p c.inside r = y at hout ⊢
  cases hout with
  | ok hpass h =>
    have hnext := hf _ _ _ _ h (hpass.lexical hr)
    simp only
    generalize f _ c _ = x at hnext ⊢
    generalize f _ c.inside _ = y at hnext ⊢
    cases hnext with
    | ok hpass' h' => exact .ok (hpass.trans hpass') h'
    | free hpass' h' => exact .free (hpass.trans hpass') h'
    | error => exact .error
  | free hpass h =>
    have hnext := hf _ _ _ _ h (hpass.lexical hr)
    simp only
    generalize f _ c _ = x at hnext
    generalize f _ c.inside _ = y at hnext ⊢
    cases hnext with
    | ok hpass' h' => exact .free (hpass.trans hpass') h'
    | free hpass' h' => exact .free (hpass.trans hpass') h'
    | error => exact .error
  | error => exact .error

lemma last {p : Parser β} {f : β → α} (hp : Exposes c r p P)
    (h : ∀ b ts rs, P b ts rs → Q (f b) ts rs) :
    Exposes c r (p >>= fun b => Pure.pure (f b)) Q := by
  apply hp.bind
  intro b ts rs s hP
  apply pure
  rw [List.append_nil, List.append_nil]
  exact h b ts rs hP

/-- A parser that does not look at the context has no free `return`. -/
lemma of_blind {p : Parser α} {R : α → List Token → Prop} (hp : Blind none p) (h : Gives c r p R)
    (hR : ∀ a ts, R a ts → Q a ts []) : Exposes c r p Q := by
  intro hr
  rw [hp.run c r]
  rcases hrun : p c r with i | ⟨a, s⟩
  · exact .error
  · obtain ⟨ts, hpass, hts⟩ := h hr a s hrun
    exact .ok hpass (hR a ts hts)

lemma blind_bind {p : Parser β} {f : β → Parser α} {R : β → List Token → Prop}
    (hp : Blind none p) (h : Gives c r p R)
    (hf : ∀ b ts s, R b ts → Exposes c s (f b) fun a us rs => Q a (ts ++ us) rs) :
    Exposes c r (p >>= f) Q := by
  apply (of_blind (Q := fun b ts rs => R b ts ∧ rs = []) hp h fun _ _ h => ⟨h, rfl⟩).bind
  rintro b ts _ s ⟨hR, rfl⟩
  exact hf b ts s hR

/-- The last part of a construct, which does not look at the context. -/
lemma blind_last {p : Parser β} {f : β → α} {R : β → List Token → Prop} (hp : Blind none p)
    (h : Gives c r p R) (hR : ∀ b ts, R b ts → Q (f b) ts []) :
    Exposes c r (p >>= fun b => Pure.pure (f b)) Q :=
  (of_blind (Q := fun b ts rs => R b ts ∧ rs = []) hp h fun _ _ h => ⟨h, rfl⟩).last
    fun b ts _ ⟨hb, hrs⟩ => hrs ▸ hR b ts hb

lemma expect_bind {f : Token → Parser α} (hfree : kind.isFree = false)
    (h : ∀ t s, Is kind t → Exposes c s (f t) fun a us rs => Q a (t :: us) rs) :
    Exposes c r (expect kind >>= f) Q := by
  apply blind_bind (Blind.expect kind) (Gives.expect_gives hfree)
  rintro t _ s ⟨ht, rfl⟩
  exact h t s ht

lemma advance_bind {f : Token → Parser α} (hkind : r.lookahead.kind = kind)
    (hfree : kind.isFree = false)
    (h : ∀ t s, Is kind t → Exposes c s (f t) fun a us rs => Q a (t :: us) rs) :
    Exposes c r (advance >>= f) Q := by
  apply blind_bind (R := fun t ts => Is kind t ∧ ts = [t]) Blind.advance
  · rw [← bind_pure advance]
    exact Gives.advance_bind hkind hfree fun t s ht => Gives.pure ⟨ht, rfl⟩
  · rintro t _ s ⟨ht, rfl⟩
    exact h t s ht

lemma lookahead_bind {f : Token → Parser α} (h : Exposes c r (f r.lookahead) Q) :
    Exposes c r (lookahead >>= f) Q :=
  h

lemma sees_ite {p q : Parser α} (hpos : r.lookahead.kind = kind → Exposes c r p Q)
    (hneg : Exposes c r q Q) : Exposes c r (sees kind >>= fun b => if b = true then p else q) Q := by
  intro hr
  by_cases h : r.lookahead.kind = kind
  · rw [sees_of_eq h, sees_of_eq h]
    exact hpos h hr
  · rw [sees_of_ne h, sees_of_ne h]
    exact hneg hr

lemma nested {p : Parser α} (h : c.depth < c.limit → Exposes c.deeper r p Q) :
    Exposes c r (Parser.nested p) Q := by
  intro hr
  by_cases hdepth : c.depth < c.limit
  · rw [nested_of_lt hdepth, nested_of_lt (c := c.inside) hdepth]
    exact h hdepth hr
  · have hlimit := Nat.le_of_not_lt hdepth
    rw [nested_of_le hlimit, nested_of_le (c := c.inside) hlimit]
    exact .error

/-- What a turn leaves behind it: the state of the next turn, or the result of the loop. -/
def Turned (P : σ → List Token → List Token → Prop) (Q : α → List Token → List Token → Prop)
    (ts rs : List Token) : Turn σ α → List Token → List Token → Prop
  | .again x, us, qs => P x (ts ++ us) (rs ++ qs)
  | .done a, us, qs => Q a (ts ++ us) (rs ++ qs)

lemma loop (P : σ → List Token → List Token → Prop) {turn : σ → Parser (Turn σ α)} {bound : Nat}
    {x : σ} (hturn : ∀ x ts rs s, P x ts rs → Exposes c s (turn x) (Turned P Q ts rs))
    (hfirst : P x [] []) : Exposes c r (Parser.loop turn bound x) Q := by
  have hloop : ∀ bound x ts rs s, P x ts rs →
      Exposes c s (Parser.loop turn bound x) fun a us qs => Q a (ts ++ us) (rs ++ qs) := by
    intro bound
    induction bound with
    | zero => exact fun _ _ _ _ _ _ => .error
    | succ bound ih =>
      intro x ts rs s hP
      rw [Parser.loop]
      apply (hturn x ts rs s hP).bind
      intro turned us qs u hturned
      cases turned with
      | again y =>
        apply (ih y (ts ++ us) (rs ++ qs) u hturned).mono
        intro a vs ps hQ
        rwa [List.append_assoc, List.append_assoc] at hQ
      | done a =>
        apply pure
        rwa [List.append_nil, List.append_nil]
  exact hloop bound x [] [] r hfirst

end Exposes

/-- A parser exposes the free `return`s of a category. -/
def ExposesIn (p : Parser Node) (category : Category) : Prop :=
  ∀ c r, c.inFunction = false → Exposes c r p fun n ts rs => FreeReturns c (.one category n) ts rs

namespace ExposesIn

variable {α : Type} {p : Parser Node} {category : Category} {c : Context} {r : Reading}

lemma last {f : Node → α} {Q : α → List Token → List Token → Prop} (hp : ExposesIn p category)
    (hc : c.inFunction = false)
    (h : ∀ n ts rs, FreeReturns c (.one category n) ts rs → Q (f n) ts rs) :
    Exposes c r (p >>= fun n => pure (f n)) Q :=
  (hp c r hc).last h

lemma optionally {kind : Kind} (hfree : kind.isFree = false) (hp : ExposesIn p category)
    (hc : c.inFunction = false) :
    Exposes c r (optionally kind p) fun n? ts rs =>
      FreeReturns c (.behind kind category n?) ts rs := by
  unfold Parser.optionally
  apply Exposes.blind_bind (Blind.accept kind) (Gives.accept_gives hfree)
  rintro _ _ s (_ | ht)
  · exact Exposes.pure (.none .nothingBehind)
  · exact hp.last hc fun n ts rs hn => hn.behind ht

end ExposesIn

section Statements

variable {g : Grammar} {c : Context} {r : Reading} (hg : g.Faithful)
  (hblind : ∀ goal, goal ≠ .statement → Blind none (g.parse goal))
  (hstatement : ExposesIn (g.parse .statement) .statement)

include hg hblind hstatement

omit hg hblind in
lemma innerStatement_exposes : ExposesIn g.innerStatement .statement := by
  intro c r hc
  unfold Grammar.innerStatement
  exact Exposes.sees_ite (fun _ => Exposes.unexpected) (hstatement c r hc)

omit hg hblind in
lemma nextInBlock_exposes (hc : c.inFunction = false) (body : List Node) (ts rs : List Token)
    (h : FreeReturns c (.row none .statement body.reverse) ts rs) :
    Exposes c r (g.nextInBlock body)
      (Exposes.Turned (fun body ts rs => FreeReturns c (.row none .statement body.reverse) ts rs)
        (fun body ts rs => FreeReturns c (.row none .statement body) ts rs) ts rs) := by
  unfold Grammar.nextInBlock
  apply Exposes.sees_ite
  · intro _
    apply Exposes.pure
    change FreeReturns c _ (ts ++ []) (rs ++ [])
    rwa [List.append_nil, List.append_nil]
  · refine Exposes.sees_ite (fun _ => Exposes.mismatch_bind) ?_
    apply hstatement.last hc
    intro n us qs hn
    change FreeReturns c (.row none .statement (n :: body).reverse) (ts ++ us) (rs ++ qs)
    rw [List.reverse_cons]
    exact h.rowItem hn

omit hg hblind in
lemma block_exposes : ExposesIn g.block .block := by
  intro c r hc
  unfold Grammar.block
  refine Exposes.expect_bind rfl fun t s ht => ?_
  apply (Exposes.loop _ (fun body ts rs s h => nextInBlock_exposes hstatement hc body ts rs h)
    (.none .rowNil)).bind
  intro body ts rs s' hrow
  refine Exposes.expect_bind rfl fun u s'' hu => Exposes.pure ?_
  rw [List.append_nil]
  exact .block ht hrow hu

lemma ifStatement_exposes : ExposesIn g.ifStatement .statementKind := by
  intro c r hc
  unfold Grammar.ifStatement
  refine Exposes.expect_bind rfl fun t s ht => ?_
  apply Exposes.blind_bind (Made.condition_made.blind_run hblind) (condition_yields hg c s)
  intro test ts s₁ htest
  apply (innerStatement_exposes hstatement c s₁ hc).bind
  intro consequent us rs s₂ hconsequent
  exact (ExposesIn.optionally rfl (innerStatement_exposes hstatement) hc).last
    fun alternate vs qs halternate => .ifStatement ht htest hconsequent halternate

omit hg hblind in
lemma loopBody_exposes : ExposesIn g.loopBody .loopBody := by
  intro c r hc
  unfold Grammar.loopBody
  apply Exposes.sees_ite
  · intro _
    exact (block_exposes hstatement c r hc).mono fun n ts rs hn => hn.loopBlock
  · exact (innerStatement_exposes hstatement).last hc fun n ts rs hn => hn.loopSingle

lemma forStatement_exposes : ExposesIn g.forStatement .statementKind := by
  intro c r hc
  have hclause : ∀ ending, (ending == .endOfFile) = false → Blind none (g.loopClause ending) :=
    fun ending hending => (Made.loopClause_made ending hending (by decide)).blind_run hblind
  unfold Grammar.forStatement
  refine Exposes.expect_bind rfl fun t s ht => ?_
  refine Exposes.expect_bind rfl fun u s₁ hu => ?_
  apply Exposes.blind_bind ((Made.loopStart_made (by decide)).blind_run hblind) (loopStart_gives hg)
  intro init ts s₂ hinit
  apply Exposes.sees_ite
  · intro hkind
    cases hinit with
    | absent => exact Exposes.unexpected
    | present hleft =>
      refine Exposes.advance_bind hkind rfl fun v s₃ hv => ?_
      apply Exposes.blind_bind (hblind .assignment (by decide)) (hg .assignment c s₃)
      intro right us s₄ hright
      refine Exposes.expect_bind rfl fun w s₅ hw => ?_
      exact (loopBody_exposes hstatement).last hc fun body vs rs hbody =>
        .forOfStatement ht hu hleft hv hright hw hbody
  · refine Exposes.expect_bind rfl fun v s₃ hv => ?_
    apply Exposes.blind_bind (hclause .semicolon rfl) (loopClause_gives hg .semicolon rfl)
    rintro test _ s₄ ⟨us, w, rfl, hw, htest⟩
    apply Exposes.blind_bind (hclause .rParen rfl) (loopClause_gives hg .rParen rfl)
    rintro update _ s₅ ⟨vs, x, rfl, hx, hupdate⟩
    apply (loopBody_exposes hstatement).last hc
    intro body ws rs hbody
    have hfor := FreeReturns.forStatement ht hu hinit hv htest hw hupdate hx hbody
    simpa using hfor

lemma whileStatement_exposes : ExposesIn g.whileStatement .statementKind := by
  intro c r hc
  unfold Grammar.whileStatement
  refine Exposes.expect_bind rfl fun t s ht => ?_
  apply Exposes.blind_bind (Made.condition_made.blind_run hblind) (condition_yields hg c s)
  intro test ts s₁ htest
  exact (innerStatement_exposes hstatement).last hc fun body us rs hbody =>
    .whileStatement ht htest hbody

lemma doWhileStatement_exposes : ExposesIn g.doWhileStatement .statementKind := by
  intro c r hc
  unfold Grammar.doWhileStatement
  refine Exposes.expect_bind rfl fun t s ht => ?_
  apply (innerStatement_exposes hstatement c s hc).bind
  intro body ts rs s₁ hbody
  refine Exposes.expect_bind rfl fun u s₂ hu => ?_
  apply Exposes.blind_bind (Made.condition_made.blind_run hblind) (condition_yields hg c s₂)
  intro test us s₃ htest
  apply Exposes.blind_last (Blind.accept _) (Gives.accept_gives rfl)
  intro b vs hend
  rw [List.append_nil]
  exact .doWhileStatement ht hbody hu htest hend

omit hstatement in
/-- A `return` is read in a function, and outside it is refused at its word. -/
lemma returnStatement_exposes (hc : c.inFunction = false) :
    Exposes c r g.returnStatement fun n ts rs =>
      FreeReturns c (.one .statementKind n) ts rs := by
  let inside : Parser Node := do
    let _ ← expect .kwReturn
    let argument ← g.returnArgument
    let _ ← accept .semicolon
    return .returnStatement argument
  have hinside : Blind none inside := by
    apply (Blind.expect .kwReturn).bind
    intro _
    apply ((Made.returnArgument_made (by decide)).blind_run hblind).bind
    intro argument
    exact (Blind.accept .semicolon).bind fun _ _ _ _ => rfl
  have hgives : Gives c r inside fun n ts => ∃ t us, ts = t :: us ∧
      FreeReturns c (.one .statementKind n) ts [t] := by
    refine Gives.expect_bind rfl fun t s ht => ?_
    apply (returnArgument_gives hg).bind
    intro argument ts s₁ hargument
    exact Gives.last (Gives.accept_gives rfl) fun b us hend =>
      ⟨t, ts ++ us, rfl, .returnStatement ht hargument hend⟩
  have hout : g.returnStatement c r =
      .error (.rejected (.returnOutsideFunction r.lookahead.span)) := by
    unfold Grammar.returnStatement
    change (if c.inFunction = true then _ else _ : Parser Node) c r = _
    rw [if_neg (by simp [hc])]
    rfl
  intro hr
  rw [hout]
  change Exposed r _ _ (inside c.inside r)
  rw [hinside.run c r]
  rcases hrun : inside c r with i | ⟨n, s⟩
  · exact .error
  · obtain ⟨_, hpass, t, us, rfl, hn⟩ := hgives hr n s hrun
    have ht : t = r.lookahead := by cases hpass.follows <;> rfl
    subst ht
    exact .free hpass hn

omit hg in
lemma catchClause_exposes : ExposesIn g.catchClause .catchClause := by
  intro c r hc
  unfold Grammar.catchClause
  apply Exposes.blind_bind ((Made.optionally rfl Made.catchParameter_made).blind_run hblind)
    (optionally_gives rfl catchParameter_yields)
  intro param ts s hparam
  exact (block_exposes hstatement).last hc fun body us rs hbody => .catchClause hparam hbody

omit hg in
lemma tryStatement_exposes : ExposesIn g.tryStatement .statementKind := by
  intro c r hc
  unfold Grammar.tryStatement
  refine Exposes.expect_bind rfl fun t s ht => ?_
  apply (block_exposes hstatement c s hc).bind
  intro body ts rs s₁ hbody
  apply (ExposesIn.optionally rfl (catchClause_exposes hblind hstatement) hc).bind
  intro handler us qs s₂ hhandler
  apply (ExposesIn.optionally rfl (block_exposes hstatement) hc).bind
  intro finalizer vs ps s₃ hfinalizer
  split
  next =>
    apply Exposes.lookahead_bind
    exact Exposes.reject _
  next hsome =>
    apply Exposes.pure
    rw [List.append_nil, List.append_nil]
    refine .tryStatement ht hbody hhandler hfinalizer ?_
    cases handler <;> cases finalizer <;> simp_all

omit hg hblind hstatement in
lemma wordStatement_blind (node : Node) : Blind none (Grammar.wordStatement node) := by
  unfold Grammar.wordStatement
  exact Blind.advance.bind fun _ => (Blind.accept _).bind fun _ _ _ _ => rfl

lemma statementKind_exposes : ExposesIn g.statementKind .statementKind := by
  intro c r hc
  have hplain : ∀ {p : Parser Node}, Blind none p →
      Gives c r p (fun n ts => Derives c (.one .statementKind n) ts) →
      Exposes c r p fun n ts rs => FreeReturns c (.one .statementKind n) ts rs :=
    fun hp h => Exposes.of_blind hp h fun _ _ hn => .none hn
  have hexpression : Blind none g.expressionStatement :=
    (Made.expressionStatement_made (by decide)).blind_run hblind
  have hfunction : Exposes c r (declaresFunction >>= fun b =>
      if b = true then g.functionDeclaration else g.expressionStatement)
      fun n ts rs => FreeReturns c (.one .statementKind n) ts rs := by
    apply hplain
    · apply Blind.declaresFunction.bind
      intro b
      split
      · exact Made.functionDeclaration_made.blind_run hblind
      · exact hexpression
    · apply declaresFunction_bind
      intro b
      split
      · exact functionDeclaration_yields hg c r
      · exact expressionStatement_yields hg c r
  unfold Grammar.statementKind
  apply Exposes.lookahead_bind
  split
  next => exact (block_exposes hstatement c r hc).mono fun n ts rs hn => hn.blockStatement
  next =>
    apply Exposes.blind_bind (Made.variableDeclaration_made.blind_run hblind)
      (variableDeclaration_yields hg c r)
    intro n ts s hn
    exact Exposes.blind_last (Blind.accept _) (Gives.accept_gives rfl) fun b us hend =>
      .none (hn.declarationStatement hend)
  next => exact ifStatement_exposes hg hblind hstatement c r hc
  next => exact hfunction
  next => exact hfunction
  next => exact hfunction
  next => exact forStatement_exposes hg hblind hstatement c r hc
  next => exact whileStatement_exposes hg hblind hstatement c r hc
  next => exact doWhileStatement_exposes hg hblind hstatement c r hc
  next hkind =>
    exact hplain (wordStatement_blind _) (wordStatement_gives hkind rfl .continueStatement)
  next hkind => exact hplain (wordStatement_blind _) (wordStatement_gives hkind rfl .breakStatement)
  next => exact returnStatement_exposes hg hblind hc
  next =>
    exact hplain (Made.classDeclaration_made.blind_run hblind) (classDeclaration_yields hg c r)
  next => exact hplain (Made.throwStatement_made.blind_run hblind) (throwStatement_yields hg c r)
  next => exact tryStatement_exposes hblind hstatement c r hc
  next => exact hplain hexpression (expressionStatement_yields hg c r)

end Statements

/-- Every level of the grammar exposes the free `return`s of statements. -/
lemma run_exposes (levels : Nat) : ExposesIn (Grammar.run levels .statement) .statement := by
  induction levels with
  | zero => exact fun _ _ _ _ => .error
  | succ levels ih =>
    intro c r hc
    apply Exposes.nested
    intro hdepth
    exact (statementKind_exposes (upTo_faithful levels) (Grammar.run_blind levels) ih c.deeper r
      hc).mono fun n ts rs hn => hn.statement hdepth

/-- A program is read in a function and outside of it in the same way, up to its first free
`return`. -/
theorem program_exposes (levels : Nat) {c : Context} {r : Reading} (hc : c.inFunction = false) :
    Exposes c r (Grammar.upTo levels).program fun tree ts rs => ∃ body,
      tree = .program body ∧ FreeReturns c (.row none .statement body) ts rs := by
  unfold Grammar.program
  apply Exposes.loop (fun body ts rs => FreeReturns c (.row none .statement body.reverse) ts rs)
  · intro body ts rs s h
    unfold Grammar.nextInProgram
    apply Exposes.sees_ite
    · intro _
      apply Exposes.pure
      change ∃ _, _
      rw [List.append_nil, List.append_nil]
      exact ⟨body.reverse, rfl, h⟩
    · apply (run_exposes levels).last hc
      intro n us qs hn
      change FreeReturns c (.row none .statement (n :: body).reverse) (ts ++ us) (rs ++ qs)
      rw [List.reverse_cons]
      exact h.rowItem hn
  · exact .none .rowNil

end ScriptTree
