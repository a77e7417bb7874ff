import ScriptTree.Proofs.Numerals
import ScriptTree.Proofs.Progress

/-!
# Every token is understood

The grammar looks the texts of operators and of `let` and `const` up in tables, reads numbers off
their texts and cuts quoted texts and regular expressions. Each of these has a way out for a text
that is not of the right form. No run takes it: a token that stands in a source is read by a rule of
its kind, and what such a rule reads is in the table of that kind.

Main statements: `LooksUp.exists_value`, `Made.understands`, and `no_token_is_misspelt`.
-/

namespace ScriptTree

open ScriptTree.Parser

section Tables

variable {β : Type} {kind : Kind} {table : String → Option β} {text : String}

/-- A table has an entry for each of finitely many spellings. -/
lemma exists_entry (h : kind.Spells text) (hne : kind.spellings ≠ [])
    (hall : ∀ text ∈ kind.spellings, (table text).isSome = true) :
    ∃ value, table text = some value :=
  Option.isSome_iff_exists.1 (hall text (h.mem_spellings hne))

/-- What a rule reads for a kind is in the tables of that kind. -/
theorem LooksUp.exists_value (h : LooksUp kind table) (hspells : kind.Spells text) :
    ∃ value, table text = some value := by
  cases h with
  | number => exact exists_decimal hspells
  | update | power | declaration => exact exists_entry hspells (by decide) (by decide)
  | unary h | assignment h =>
    rcases h with rfl | rfl <;> exact exists_entry hspells (by decide) (by decide)
  | level h =>
    have hlevels : ∀ level ∈ OperatorLevel.all, level.kind.spellings ≠ [] ∧
        ∀ text ∈ level.kind.spellings, (level.join? text).isSome = true := by
      decide
    obtain ⟨hne, hall⟩ := hlevels _ h
    exact exists_entry hspells hne hall
  | string =>
    obtain ⟨quote, value, -, hcut, -⟩ := exists_unquoted hspells
    exact ⟨value, hcut⟩
  | regex =>
    obtain ⟨close, pattern, flags, hclose, hpattern, hflags, -, -⟩ := exists_regexParts hspells
    exact ⟨⟨pattern, flags⟩, regexParts?_eq hclose hpattern hflags⟩

lemma LooksUp.isFree_eq (h : LooksUp kind table) : kind.isFree = false := by
  cases h with
  | number | update | power | declaration | string | regex => rfl
  | unary h | assignment h => rcases h with rfl | rfl <;> rfl
  | level h =>
    have hall : ∀ level ∈ OperatorLevel.all, level.kind.isFree = false := by decide
    exact hall _ h

end Tables

/-- A source can be read up to here, token by token, by the lexical rules or as template text. -/
def Reached (source : String) (r : Reading) : Prop :=
  ∃ token after ts, (Cursor.ofSource source).next = (.ok token, after) ∧
    Follows ⟨token, after⟩ ts r

lemma Follows.lexical {r s : Reading} {ts : List Token} (h : Follows r ts s)
    (hr : r.lookahead.Lexical) : s.lookahead.Lexical := by
  induction h with
  | refl => exact hr
  | next hnext _ ih => exact ih (Cursor.lexical_of_next hnext)
  | @piece r _ _ _ ih => exact ih r.cursor.lexical_of_nextTemplate

namespace Reached

variable {source : String} {r : Reading} {token : Token} {after : Cursor}

lemma first (h : (Cursor.ofSource source).next = (.ok token, after)) :
    Reached source ⟨token, after⟩ :=
  ⟨token, after, [], h, .refl _⟩

lemma next (h : Reached source r) (hnext : r.cursor.next = (.ok token, after)) :
    Reached source ⟨token, after⟩ := by
  obtain ⟨_, _, _, hfirst, hfollows⟩ := h
  exact ⟨_, _, _, hfirst, hfollows.trans (.next hnext (.refl _))⟩

lemma piece (h : Reached source r) :
    Reached source ⟨r.cursor.nextTemplate.1, r.cursor.nextTemplate.2⟩ := by
  obtain ⟨_, _, _, hfirst, hfollows⟩ := h
  exact ⟨_, _, _, hfirst, hfollows.trans (.piece (.refl _))⟩

lemma lexical (h : Reached source r) : r.lookahead.Lexical := by
  obtain ⟨_, _, _, hfirst, hfollows⟩ := h
  exact hfollows.lexical (Cursor.lexical_of_next hfirst)

/-- The next token has an entry in each table that it may be looked up in. -/
lemma exists_value {β : Type} {table : String → Option β} (h : Reached source r)
    (htable : LooksUp r.lookahead.kind table) : ∃ value, table r.lookahead.text = some value :=
  htable.exists_value (h.lexical.is rfl htable.isFree_eq).2

end Reached

/-- What a run comes to that is not stopped by the text of a token. -/
inductive Understood {α : Type} (source : String) : Except Interrupt (α × Reading) → Prop where
  | ok {a : α} {s : Reading} (hs : Reached source s) : Understood source (.ok (a, s))
  | rejected (e : SyntaxError) : Understood source (.error (.rejected e))
  | unfinished : Understood source (.error .unfinished)

/-- No run of a parser in a source is stopped by the text of a token. -/
def Understands {α : Type} (source : String) (seen : Option Token) (p : Parser α) : Prop :=
  ∀ (c : Context) ⦃r : Reading⦄, (∀ t ∈ seen, r.lookahead = t) → Reached source r →
    Understood source (p c r)

namespace Understands

variable {α β σ : Type} {source : String} {seen : Option Token} {t : Token} {p : Parser α}

lemma run (h : Understands source none p) (c : Context) {r : Reading} (hr : Reached source r) :
    Understood source (p c r) :=
  h c (by simp) hr

lemma forget (h : Understands source none p) : Understands source seen p :=
  fun c _ _ hr => h.run c hr

lemma pure (a : α) : Understands source seen (Pure.pure a) :=
  fun _ _ _ hr => .ok hr

lemma reject (e : SyntaxError) : Understands source seen (Parser.reject e : Parser α) :=
  fun _ _ _ _ => .rejected e

lemma mismatch (kind : Kind) : Understands source seen (Parser.mismatch kind : Parser α) :=
  fun _ _ _ _ => .rejected _

lemma bind {f : α → Parser β} (hp : Understands source seen p)
    (hf : ∀ a, Understands source none (f a)) : Understands source seen (p >>= f) := by
  intro c r hseen hr
  have hrun := hp c hseen hr
  simp only [Bind.bind]
  generalize p c r = x at hrun
  cases hrun with
  | ok hs => exact (hf _).run c hs
  | rejected e => exact .rejected e
  | unfinished => exact .unfinished

lemma lookahead {f : Token → Parser α}
    (h : ∀ t, (∀ u ∈ seen, u = t) → Understands source (some t) (f t)) :
    Understands source seen (Parser.lookahead >>= f) := by
  intro c r hseen hr
  exact h r.lookahead (fun u hu => (hseen u hu).symm) c (by simp) hr

lemma sees {kind : Kind} {q : Parser α} (hp : Understands source seen p)
    (hq : Understands source seen q) :
    Understands source seen (Parser.sees kind >>= fun b => if b = true then p else q) := by
  intro c r hseen hr
  by_cases hkind : r.lookahead.kind = kind
  · rw [sees_of_eq hkind]
    exact hp c hseen hr
  · rw [sees_of_ne hkind]
    exact hq c hseen hr

lemma advance_bind {f : Token → Parser α} (h : Understands source none (f t)) :
    Understands source (some t) (Parser.advance >>= f) := by
  intro c r hseen hr
  have ht : r.lookahead = t := hseen t rfl
  simp only [Bind.bind, Parser.advance, ht]
  rcases hnext : r.cursor.next with ⟨e | token, after⟩
  · exact .rejected e
  · exact h.run c (hr.next hnext)

lemma advance : Understands source seen Parser.advance := by
  intro c r _ hr
  unfold Parser.advance
  rcases hnext : r.cursor.next with ⟨e | token, after⟩
  · exact .rejected e
  · exact .ok (hr.next hnext)

lemma advanceInTemplate : Understands source seen Parser.advanceInTemplate :=
  fun _ _ _ hr => .ok hr.piece

lemma expect (kind : Kind) : Understands source seen (Parser.expect kind) :=
  sees advance (mismatch kind)

lemma expectInTemplate (kind : Kind) : Understands source seen (Parser.expectInTemplate kind) :=
  sees advanceInTemplate (mismatch kind)

/-- The text of a token that is looked up is in the table. -/
lemma lookUp {table : String → Option β} {f : Token → β → Parser α} (htable : LooksUp t.kind table)
    (h : ∀ b, Understands source none (f t b)) :
    Understands source (some t)
      (Parser.advance >>= fun token => spelled token (table token.text) >>= f token) := by
  intro c r hseen hr
  have ht : r.lookahead = t := hseen t rfl
  obtain ⟨b, hb⟩ := hr.exists_value (ht ▸ htable)
  refine advance_bind ?_ c hseen hr
  rw [← ht, hb]
  exact ht ▸ h b

lemma nested (h : Understands source seen p) : Understands source seen (Parser.nested p) := by
  intro c r hseen hr
  unfold Parser.nested
  split
  · exact .rejected _
  · exact h _ hseen hr

lemma inFunction (h : Understands source seen p) : Understands source seen (Parser.inFunction p) :=
  fun _ _ hseen hr => h _ hseen hr

lemma guarded {q : Parser α} (hp : Understands source seen p) (hq : Understands source seen q) :
    Understands source seen (context >>= fun c => if c.inFunction = true then p else q) := by
  intro c r hseen hr
  change Understood source ((if c.inFunction = true then p else q) c r)
  split
  · exact hp c hseen hr
  · exact hq c hseen hr

lemma loop {turn : σ → Parser (Turn σ α)} (h : ∀ x, Understands source none (turn x)) (bound : Nat)
    (x : σ) : Understands source seen (Parser.loop turn bound x) := by
  apply forget
  induction bound generalizing x with
  | zero => exact fun _ _ _ _ => .unfinished
  | succ bound ih =>
    rw [Parser.loop]
    apply (h x).bind
    intro next
    cases next with
    | again y => exact ih y
    | done a => exact pure a

lemma acceptUnless (kind : Kind) (ends : Kind → Bool) :
    Understands source seen (acceptUnless kind ends) := by
  intro c r _ hr
  rw [acceptUnless_run]
  split
  · rcases hnext : r.cursor.next with ⟨e | token, after⟩
    · exact .rejected e
    · simp only
      split
      · exact .ok hr
      · exact .ok (hr.next hnext)
  · exact .ok hr

lemma declaresFunction : Understands source seen declaresFunction := by
  intro c r _ hr
  rw [declaresFunction_run]
  rcases r.cursor.next with ⟨e | token, after⟩
  · exact .rejected e
  · simp only
    split
    · split
      · rcases after.next with ⟨e | name, last⟩
        · exact .rejected e
        · exact .ok hr
      · exact .ok hr
    · exact .ok hr

end Understands

section Grammars

variable {source : String} {g : Grammar} (hg : ∀ goal, Understands source none (g.parse goal))

include hg

lemma templatePart_understands (parts : TemplateParts) :
    Understands source none (g.templatePart parts) := by
  unfold Grammar.templatePart
  apply Understands.lookahead
  intro t _
  apply Understands.forget
  split
  next => exact Understands.advanceInTemplate.bind fun _ => .pure _
  next =>
    apply Understands.advance.bind
    intro token
    apply (Understands.expect .lBrace).bind
    intro _
    apply (hg .sequence).bind
    intro expression
    exact (Understands.expectInTemplate .rBrace).bind fun _ => .pure _
  next => exact Understands.advance.bind fun _ => .pure _
  next => exact .mismatch _

lemma templateLiteral_understands : Understands source none g.templateLiteral := by
  unfold Grammar.templateLiteral
  exact (Understands.expectInTemplate .backtick).bind fun _ =>
    .loop (templatePart_understands hg) _ _

/-- What is made in the ways of the grammar understands each token that it looks up. -/
theorem Made.understands {α : Type} {seen : Option (Token × Token)} {x : Traits} {p q : Parser α}
    (h : Made g seen x p q) (hseen : ∀ tu ∈ seen, Faces tu.1 tu.2) :
    Understands source (seen.map Prod.fst) p ∧ Understands source (seen.map Prod.snd) q := by
  induction h with
  | pure a => exact ⟨.pure a, .pure a⟩
  | reject => exact ⟨.reject _, .reject _⟩
  | look h ih =>
    constructor
    · apply Understands.lookahead
      intro t ht
      obtain ⟨u, hfaces, hknown⟩ := exists_second hseen ht
      exact (ih t u hfaces hknown (by simpa using hfaces)).1
    · apply Understands.lookahead
      intro u hu
      obtain ⟨t, hfaces, hknown⟩ := exists_first hseen hu
      exact (ih t u hfaces hknown (by simpa using hfaces)).2
  | take hsame hend h ih => exact ⟨(ih (by simp)).1.advance_bind, (ih (by simp)).2.advance_bind⟩
  | lookUp hsame htable h ih =>
    exact ⟨.lookUp htable fun b => (ih b (by simp)).1,
      .lookUp (kind_eq hsame ▸ htable) fun b => (ih b (by simp)).2⟩
  | after hp hf ihp ihf | seq hp hf ihp ihf | closing hp hf ihp ihf =>
    exact ⟨(ihp hseen).1.bind fun a => (ihf a (by simp)).1,
      (ihp hseen).2.bind fun a => (ihf a (by simp)).2⟩
  | nested hk h ih => exact ⟨(ih hseen).1.nested, (ih hseen).2.nested⟩
  | inFunction h ih => exact ⟨(ih hseen).1.inFunction, (ih hseen).2.inFunction⟩
  | guarded hp hq ihp ihq =>
    exact ⟨(ihp hseen).1.guarded (ihq hseen).1, (ihp hseen).2.guarded (ihq hseen).2⟩
  | loop bound y h ih =>
    exact ⟨.loop (fun y => (ih y (by simp)).1) bound y, .loop (fun y => (ih y (by simp)).2) bound y⟩
  | goal goal => exact ⟨(hg goal).forget, (hg goal).forget⟩
  | template =>
    exact ⟨(templateLiteral_understands hg).forget, (templateLiteral_understands hg).forget⟩
  | declares => exact ⟨.declaresFunction, .declaresFunction⟩
  | modifier hkind hends hf ih =>
    exact ⟨(Understands.acceptUnless _ _).bind fun a => (ih a (by simp)).1,
      (Understands.acceptUnless _ _).bind fun a => (ih a (by simp)).2⟩
  | cross ht hu hp hq hb hz ihp ihq =>
    exact ⟨(ihp (by simpa using Faces.refl _)).1, (ihq (by simpa using Faces.refl _)).2⟩

end Grammars

/-- No construct is stopped by the text of a token, however deep it nests. -/
theorem Grammar.run_understands (source : String) (levels : Nat) (goal : Goal) :
    Understands source none (run levels goal) := by
  induction levels generalizing goal with
  | zero => exact fun _ _ _ _ => .unfinished
  | succ levels ih =>
    have hmade : Made ⟨levels, run levels⟩ none ⟨true, goal.levels, false, true⟩ _ _ :=
      Made.production_made goal (Nat.le_refl _) (by simp)
    exact (hmade.understands ih (by simp)).1

lemma Grammar.program_understands (source : String) (levels : Nat) :
    Understands source none (upTo levels).program := by
  unfold Grammar.program
  refine .loop (fun body => ?_) _ _
  unfold Grammar.nextInProgram
  exact .sees (.pure _) ((run_understands source levels .statement).bind fun _ => .pure _)

/-- No run over a source takes a way out that is there for a text of the wrong form. Whatever token
it comes to, the text is in the tables of its kind; between quotes, and at the last slash of a
regular expression, it can be cut, and nothing is lost of it. -/
theorem no_token_is_misspelt (source : String) :
    (∀ limit levels token,
      (Cursor.ofSource source).program limit levels ≠ .error (.misspelt token)) ∧
    ∀ r, Reached source r →
      (∀ {β : Type} {table : String → Option β}, LooksUp r.lookahead.kind table →
        ∃ value, table r.lookahead.text = some value) ∧
      (r.lookahead.kind = .string → ∃ quote value, (quote = "'" ∨ quote = "\x22") ∧
        slice? r.lookahead.text 1 (byteLength r.lookahead.text.toList - 1) = some value ∧
        r.lookahead.text = quote ++ value ++ quote) ∧
      (r.lookahead.kind = .regex → ∃ close pattern flags,
        lastOffset? '/' r.lookahead.text = some close ∧
        slice? r.lookahead.text 1 close = some pattern ∧
        slice? r.lookahead.text (close + 1) (byteLength r.lookahead.text.toList) = some flags ∧
        pattern ≠ "" ∧ r.lookahead.text = "/" ++ pattern ++ "/" ++ flags) := by
  refine ⟨fun limit levels token => ?_, fun r hr =>
    ⟨hr.exists_value, fun hkind => exists_unquoted (hr.lexical.is hkind rfl).2,
      fun hkind => exists_regexParts (hr.lexical.is hkind rfl).2⟩⟩
  unfold Cursor.program
  rcases hnext : (Cursor.ofSource source).next with ⟨e | first, after⟩
  · simp
  · have hrun := (Grammar.program_understands source levels).run ⟨limit, 0, false⟩ (.first hnext)
    simp only
    generalize (Grammar.upTo levels).program ⟨limit, 0, false⟩ ⟨first, after⟩ = x at hrun
    cases hrun <;> simp

/-- The bounds are counted in bytes: the pattern ends behind a letter of two. -/
theorem cut_behind_accent :
    (Cursor.ofSource "/\\/é/g").next.1 = .ok ⟨.regex, "/\\/é/g", .ofOffsets 0 7⟩ ∧
    ∃ pattern flags, slice? "/\\/é/g" 1 5 = some pattern ∧ slice? "/\\/é/g" 6 7 = some flags ∧
      pattern ≠ "" ∧ "/\\/é/g" = "/" ++ pattern ++ "/" ++ flags := by
  have hfirst : (Cursor.ofSource "/\\/é/g").next.1 = .ok ⟨.regex, "/\\/é/g", .ofOffsets 0 7⟩ := by
    decide +kernel
  have hreached : Reached "/\\/é/g" ⟨_, (Cursor.ofSource "/\\/é/g").next.2⟩ :=
    .first (Prod.ext hfirst rfl)
  obtain ⟨close, pattern, flags, hclose, hpattern, hflags, hwhole⟩ :=
    ((no_token_is_misspelt "/\\/é/g").2 _ hreached).2.2 rfl
  have hfive : lastOffset? '/' "/\\/é/g" = some 5 := by decide +kernel
  obtain rfl : close = 5 := Option.some.inj (hclose.symm.trans hfive)
  exact ⟨hfirst, pattern, flags, hpattern, hflags, hwhole⟩

end ScriptTree
