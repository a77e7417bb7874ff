import ScriptTree.Proofs.Derivation
import ScriptTree.Proofs.Progress

/-!
# What depends on the function around it

Whether a construct stands in a function is looked at for a `return` only. Between an expression and
the statements in it there is always a function of its own, so expressions are read in the same way
in a function and outside of it.

Main statement: `Grammar.run_blind`.
-/

namespace ScriptTree

open ScriptTree.Parser

/-- All runs of a parser are the same in a function and outside of it. -/
def Blind {α : Type} (seen : Option Token) (p : Parser α) : Prop :=
  ∀ (c : Context) (r : Reading), (∀ t ∈ seen, r.lookahead = t) → p c.inside r = p c r

namespace Blind

variable {α β σ : Type} {seen : Option Token} {t : Token} {p : Parser α}

lemma run (h : Blind none p) (c : Context) (r : Reading) : p c.inside r = p c r :=
  h c r (by simp)

lemma forget (h : Blind none p) : Blind seen p :=
  fun c r _ => h.run c r

lemma bind {f : α → Parser β} (hp : Blind seen p) (hf : ∀ a, Blind none (f a)) :
    Blind seen (p >>= f) := by
  intro c r hseen
  simp only [Bind.bind, hp c r hseen]
  rcases p c r with i | ⟨a, s⟩
  · rfl
  · exact (hf a).run c s

lemma lookahead {f : Token → Parser α} (h : ∀ t, (∀ u ∈ seen, u = t) → Blind (some t) (f t)) :
    Blind seen (Parser.lookahead >>= f) := by
  intro c r hseen
  exact h r.lookahead (fun u hu => (hseen u hu).symm) c r (by simp)

lemma advance : Blind seen Parser.advance :=
  fun _ _ _ => rfl

lemma advance_bind {f : Token → Parser α} (h : Blind none (f t)) :
    Blind (some t) (Parser.advance >>= f) := by
  intro c r hseen
  have ht : r.lookahead = t := hseen t rfl
  simp only [Bind.bind, Parser.advance]
  rcases r.cursor.next with ⟨e | token, after⟩
  · rfl
  · simp only [ht]
    exact h.run c _

lemma lookUp {table : String → Option β} {f : Token → β → Parser α} (h : ∀ b, Blind none (f t b)) :
    Blind (some t)
      (Parser.advance >>= fun token => spelled token (table token.text) >>= f token) := by
  apply advance_bind
  cases table t.text with
  | none => exact fun _ _ _ => rfl
  | some b => exact h b

lemma sees {kind : Kind} {p q : Parser α} (hp : Blind seen p) (hq : Blind seen q) :
    Blind seen (Parser.sees kind >>= fun b => if b = true then p else q) := by
  intro c r hseen
  by_cases hkind : r.lookahead.kind = kind
  · rw [sees_of_eq hkind, sees_of_eq hkind]
    exact hp c r hseen
  · rw [sees_of_ne hkind, sees_of_ne hkind]
    exact hq c r hseen

lemma mismatch (kind : Kind) : Blind seen (Parser.mismatch kind : Parser α) :=
  fun _ _ _ => rfl

lemma expect (kind : Kind) : Blind seen (Parser.expect kind) :=
  sees advance (mismatch kind)

lemma accept (kind : Kind) : Blind seen (Parser.accept kind) :=
  sees (advance.bind fun _ _ _ _ => rfl) fun _ _ _ => rfl

lemma expectInTemplate (kind : Kind) : Blind seen (Parser.expectInTemplate kind) :=
  sees (fun _ _ _ => rfl) (mismatch kind)

lemma nested (h : Blind seen p) : Blind seen (Parser.nested p) := by
  intro c r hseen
  unfold Parser.nested
  exact if_congr Iff.rfl rfl (h c.deeper r hseen)

lemma loop {turn : σ → Parser (Turn σ α)} (h : ∀ x, Blind none (turn x)) (bound : Nat) (x : σ) :
    Blind seen (Parser.loop turn bound x) := by
  apply forget
  induction bound generalizing x with
  | zero => exact fun _ _ _ => rfl
  | succ bound ih =>
    rw [Parser.loop]
    apply (h x).bind
    intro next
    cases next with
    | again y => exact ih y
    | done a => exact fun _ _ _ => rfl

lemma acceptUnless (kind : Kind) (ends : Kind → Bool) : Blind seen (acceptUnless kind ends) := by
  intro c r _
  rw [acceptUnless_run, acceptUnless_run]

lemma declaresFunction : Blind seen declaresFunction := by
  intro c r _
  rw [declaresFunction_run, declaresFunction_run]

end Blind

section Grammars

variable {g : Grammar} (hg : ∀ goal, goal ≠ .statement → Blind none (g.parse goal))

include hg

lemma templatePart_blind (parts : TemplateParts) : Blind none (g.templatePart parts) := by
  unfold Grammar.templatePart
  apply Blind.lookahead
  intro t _
  apply Blind.forget
  split
  next => exact fun _ _ _ => rfl
  next =>
    apply Blind.advance.bind
    intro token
    apply (Blind.expect .lBrace).bind
    intro _
    apply (hg .sequence (by decide)).bind
    intro expression
    exact (Blind.expectInTemplate .rBrace).bind fun _ _ _ _ => rfl
  next => exact Blind.advance.bind fun _ _ _ _ => rfl
  next => exact fun _ _ _ => rfl

lemma templateLiteral_blind : Blind none g.templateLiteral := by
  unfold Grammar.templateLiteral
  apply (Blind.expectInTemplate .backtick).bind
  intro _
  exact Blind.loop (templatePart_blind hg) _ _

/-- All runs of what is made blind are the same in a function and outside of it. -/
theorem Made.blind {α : Type} {seen : Option (Token × Token)} {x : Traits} {p q : Parser α}
    (h : Made g seen x p q) (hx : x.blind = true) (hseen : ∀ tu ∈ seen, Faces tu.1 tu.2) :
    Blind (seen.map Prod.fst) p ∧ Blind (seen.map Prod.snd) q := by
  induction h with
  | pure a => exact ⟨fun _ _ _ => rfl, fun _ _ _ => rfl⟩
  | reject => exact ⟨fun _ _ _ => rfl, fun _ _ _ => rfl⟩
  | look h ih =>
    constructor
    · apply Blind.lookahead
      intro t ht
      obtain ⟨u, hfaces, hknown⟩ := exists_second hseen ht
      exact (ih t u hfaces hknown hx (by simpa using hfaces)).1
    · apply Blind.lookahead
      intro u hu
      obtain ⟨t, hfaces, hknown⟩ := exists_first hseen hu
      exact (ih t u hfaces hknown hx (by simpa using hfaces)).2
  | take hsame hend h ih =>
    obtain ⟨hfirst, hsecond⟩ := ih hx (by simp)
    exact ⟨hfirst.advance_bind, hsecond.advance_bind⟩
  | lookUp hsame htable h ih =>
    exact ⟨.lookUp fun a => (ih a hx (by simp)).1, .lookUp fun a => (ih a hx (by simp)).2⟩
  | after hp hf ihp ihf | seq hp hf ihp ihf | closing hp hf ihp ihf =>
    obtain ⟨hfirst, hsecond⟩ := ihp hx hseen
    exact ⟨hfirst.bind fun a => (ihf a hx (by simp)).1, hsecond.bind fun a => (ihf a hx (by simp)).2⟩
  | nested hk h ih => exact ⟨(ih hx hseen).1.nested, (ih hx hseen).2.nested⟩
  | inFunction h ih => exact ⟨fun _ _ _ => rfl, fun _ _ _ => rfl⟩
  | guarded hp hq ihp ihq => cases hx
  | loop bound y h ih =>
    exact ⟨.loop (fun y => (ih y hx (by simp)).1) bound y,
      .loop (fun y => (ih y hx (by simp)).2) bound y⟩
  | goal goal hk hd => exact ⟨(hg goal (hd hx)).forget, (hg goal (hd hx)).forget⟩
  | template => exact ⟨(templateLiteral_blind hg).forget, (templateLiteral_blind hg).forget⟩
  | declares hsame hend => exact ⟨.declaresFunction, .declaresFunction⟩
  | modifier hkind hends hf ih =>
    exact ⟨(Blind.acceptUnless _ _).bind fun a => (ih a hx (by simp)).1,
      (Blind.acceptUnless _ _).bind fun a => (ih a hx (by simp)).2⟩
  | cross ht hu hp hq hb hz ihp ihq =>
    exact ⟨(ihp hx (by simpa using Faces.refl _)).1, (ihq hx (by simpa using Faces.refl _)).2⟩

/-- In particular of what needs not know its first token. -/
lemma Made.blind_run {α : Type} {p : Parser α} (h : Made g none ⟨false, 2, true, false⟩ p p) :
    Blind none p :=
  (h.blind hg rfl (by simp)).1

end Grammars

/-- Every construct but a statement is read in the same way in a function and outside of it. -/
theorem Grammar.run_blind (levels : Nat) (goal : Goal) (hgoal : goal ≠ .statement) :
    Blind none (run levels goal) := by
  induction levels generalizing goal with
  | zero => exact fun _ _ _ => rfl
  | succ levels ih =>
    have hlevels : goal.levels ≤ 2 := by cases goal <;> decide
    exact (Made.production_made goal hlevels fun _ => hgoal).blind_run ih

end ScriptTree
