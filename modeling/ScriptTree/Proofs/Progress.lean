import ScriptTree.Proofs.MadeGrammar
import ScriptTree.Proofs.Pieces

/-!
# Progress

`Ahead m r` says that at most `m` tokens come before the end of the source, whether they are read by
the lexical rules or as template text. A parser that is made in the ways of the grammar never comes
to have more tokens ahead of it, and has less if it is one that consumes a token. Levels of nesting
are paid for by these tokens: between two of them at most two levels are entered.

Main statements: `Made.pays`, and `Grammar.run_pays` for whole constructs.
-/

namespace ScriptTree

open ScriptTree.Parser

namespace Cursor

variable {cursor after : Cursor} {token : Token}

lemma next_of_nil (h : cursor.rest = []) :
    cursor.next = (.ok (.endOfFile cursor.offset), cursor) := by
  rw [next]
  split
  next => rfl
  next hrest => cases h.symm.trans hrest

/-- Behind an end token nothing is left. -/
lemma rest_of_next (h : cursor.next = (.ok token, after)) (hkind : token.kind = .endOfFile) :
    after.rest = [] := by
  obtain ⟨gap, start, -, -, -, hmeets⟩ := cursor.next_meets
  rw [h] at hmeets
  cases hmeets with
  | done hrest => exact hrest
  | lexeme hrule => exact absurd hkind (Rule.kind_ne_endOfFile_of_first? hrule)

end Cursor

/-- The kinds of tokens that template text may stand behind. -/
def Kind.opensText : Kind → Bool
  | backtick | templateString | rBrace => true
  | _ => false

lemma Kind.opensText_of_isKeyword {kind : Kind} (h : kind.isKeyword = true) :
    kind.opensText = false := by
  cases kind <;> first | rfl | cases h

/-- At most so many tokens are ahead, whichever way they are read. -/
def Ahead : Nat → Reading → Prop
  | 0, r => r.lookahead.kind = .endOfFile ∧ r.cursor.rest = []
  | m + 1, r => (∀ token after, r.cursor.next = (.ok token, after) → Ahead m ⟨token, after⟩) ∧
      (r.lookahead.kind.opensText = true →
        Ahead m ⟨r.cursor.nextTemplate.1, r.cursor.nextTemplate.2⟩)

namespace Ahead

variable {m n : Nat} {r : Reading}

lemma of_nil (h : r.cursor.rest = []) : Ahead 1 r := by
  constructor
  · intro token after hnext
    rw [Cursor.next_of_nil h] at hnext
    cases hnext
    exact ⟨rfl, h⟩
  · intro _
    rw [Cursor.nextTemplate_of_nil h]
    exact ⟨rfl, h⟩

lemma succ (h : Ahead m r) : Ahead (m + 1) r := by
  induction m generalizing r with
  | zero => exact of_nil h.2
  | succ m ih =>
    obtain ⟨hnext, htemplate⟩ := h
    exact ⟨fun token after hr => ih (hnext token after hr), fun hopens => ih (htemplate hopens)⟩

lemma mono (hmn : m ≤ n) (h : Ahead m r) : Ahead n r := by
  induction hmn with
  | refl => exact h
  | step _ ih => exact ih.succ

/-- There is a token for each character at most. -/
lemma of_length (h : r.cursor.rest.length ≤ m) : Ahead (m + 1) r := by
  induction m generalizing r with
  | zero => exact of_nil (List.eq_nil_of_length_eq_zero (Nat.le_zero.1 h))
  | succ m ih =>
    by_cases hnil : r.cursor.rest = []
    · exact (of_nil hnil).mono (by omega)
    · constructor
      · intro token after hnext
        by_cases hkind : token.kind = .endOfFile
        · have hend : Ahead 0 ⟨token, after⟩ := ⟨hkind, Cursor.rest_of_next hnext hkind⟩
          exact hend.mono (by omega)
        · have hlt := Cursor.next_length_lt hnext hkind
          exact ih (by simp only; omega)
      · have hlt := Cursor.nextTemplate_length_lt hnil
        exact fun _ => ih (by simp only; omega)

/-- Consuming a token that is there leaves one less. -/
lemma next {token : Token} {after : Cursor} (h : Ahead m r) (hkind : r.lookahead.kind ≠ .endOfFile)
    (hnext : r.cursor.next = (.ok token, after)) : ∃ k, k + 1 ≤ m ∧ Ahead k ⟨token, after⟩ := by
  cases m with
  | zero => exact absurd h.1 hkind
  | succ m => exact ⟨m, Nat.le_refl _, h.1 token after hnext⟩

lemma nextTemplate (h : Ahead m r) (hkind : r.lookahead.kind.opensText = true) :
    ∃ k, k + 1 ≤ m ∧ Ahead k ⟨r.cursor.nextTemplate.1, r.cursor.nextTemplate.2⟩ := by
  cases m with
  | zero =>
    rw [h.1] at hkind
    cases hkind
  | succ m => exact ⟨m, Nat.le_refl _, h.2 hkind⟩

end Ahead

lemma isTooDeep_of_next {cursor after : Cursor} {e : SyntaxError}
    (h : cursor.next = (.error e, after)) : e.isTooDeep = false := by
  obtain ⟨gap, start, -, -, -, hmeets⟩ := cursor.next_meets
  rw [h] at hmeets
  cases hmeets
  rfl

lemma acceptUnless_run (kind : Kind) (ends : Kind → Bool) (c : Context) (r : Reading) :
    acceptUnless kind ends c r =
      if r.lookahead.kind = kind then
        match r.cursor.next with
        | (.ok token, after) =>
          if ends token.kind = true then .ok (false, r) else .ok (true, ⟨token, after⟩)
        | (.error e, _) => .error (.rejected e)
      else .ok (false, r) := by
  unfold acceptUnless
  by_cases hkind : r.lookahead.kind = kind
  · rw [sees_of_eq hkind, if_pos hkind]
    change (tokenAt r.cursor >>= _) c r = _
    unfold tokenAt
    rcases hnext : r.cursor.next with ⟨e | token, after⟩
    · rfl
    · change (if ends token.kind = true then _ else _ : Parser Bool) c r = _
      by_cases hends : ends token.kind = true
      · simp only [hends, if_true]
        rfl
      · change _ = if ends token.kind = true then _ else _
        rw [if_neg hends, if_neg hends]
        change (advance >>= fun _ => pure true) c r = _
        unfold advance
        simp only [Bind.bind, hnext]
        rfl
  · rw [sees_of_ne hkind, if_neg hkind]
    rfl

/-- Reading ahead whether a function is declared moves nothing. -/
lemma declaresFunction_run (c : Context) (r : Reading) :
    declaresFunction c r =
      match r.cursor.next with
      | (.error e, _) => .error (.rejected e)
      | (.ok next, after) =>
        if r.lookahead.kind = .kwAsync then
          if next.kind = .kwFunction ∨ next.kind = .kwFunctionStar then
            match after.next with
            | (.error e, _) => .error (.rejected e)
            | (.ok name, _) => .ok (name.kind == .identifier, r)
          else .ok (false, r)
        else .ok (next.kind == .identifier, r) := by
  change (tokenAt r.cursor >>= _) c r = _
  unfold tokenAt
  rcases r.cursor.next with ⟨e | next, after⟩
  · rfl
  · change (if (r.lookahead.kind == .kwAsync) = true then _ else _ : Parser Bool) c r =
      if r.lookahead.kind = .kwAsync then _ else _
    by_cases hasync : r.lookahead.kind = .kwAsync
    · rw [if_pos (beq_iff_eq.2 hasync), if_pos hasync]
      by_cases hword : next.kind = .kwFunction ∨ next.kind = .kwFunctionStar
      · rw [if_pos (by simpa using hword), if_pos hword]
        rcases after.next with ⟨e | name, last⟩ <;> rfl
      · rw [if_neg (by simpa using hword), if_neg hword]
        rfl
    · rw [if_neg (by simpa using hasync), if_neg hasync]
      rfl

/-- What a run comes to that has at most `m` tokens ahead of it: it leaves fewer of them if it eats,
and exceeds the limit only where that is no deeper than the tokens pay for. -/
inductive Paid {α : Type} (c : Context) (m : Nat) (eats : Bool) (levels : Nat) :
    Except Interrupt (α × Reading) → Prop where
  | ok {a : α} {s : Reading} {k : Nat} (hk : k + eats.toNat ≤ m) (hs : Ahead k s) :
      Paid c m eats levels (.ok (a, s))
  | tooDeep {limit : Nat} {span : Span} (h : c.limit + 1 ≤ c.depth + levels + 2 * m) :
      Paid c m eats levels (.error (.rejected (.nestingTooDeep limit span)))
  | refused {e : SyntaxError} (he : e.isTooDeep = false) :
      Paid c m eats levels (.error (.rejected e))
  | misspelt {token : Token} : Paid c m eats levels (.error (.misspelt token))
  | unfinished : Paid c m eats levels (.error .unfinished)

lemma Paid.widen {α : Type} {c : Context} {k m j l : Nat} {b b' : Bool}
    {x : Except Interrupt (α × Reading)} (h : Paid c k b j x)
    (hok : ∀ i, i + b.toNat ≤ k → i + b'.toNat ≤ m) (hdeep : j + 2 * k ≤ l + 2 * m) :
    Paid c m b' l x := by
  cases h with
  | ok hk hs => exact .ok (hok _ hk) hs
  | tooDeep h => exact .tooDeep (by omega)
  | refused he => exact .refused he
  | misspelt => exact .misspelt
  | unfinished => exact .unfinished

/-- A token that was consumed pays for two levels. -/
lemma Paid.pay {α : Type} {c : Context} {l m k : Nat} {b : Bool}
    {x : Except Interrupt (α × Reading)} (h : Paid c l false 2 x) (hl : l + 1 ≤ m) :
    Paid c m b k x := by
  apply h.widen
  · intro i hi
    have hb := Bool.toNat_le b
    simp only [Bool.toNat_false] at hi
    omega
  · omega

/-- All runs of a parser are paid for. -/
def Pays {α : Type} (seen : Option Token) (eats : Bool) (levels : Nat) (p : Parser α) : Prop :=
  ∀ (c : Context) ⦃r : Reading⦄ ⦃m : Nat⦄, (∀ t ∈ seen, r.lookahead = t) → Ahead m r →
    Paid c m eats levels (p c r)

namespace Pays

variable {α β σ : Type} {seen : Option Token} {t : Token} {b : Bool} {j k : Nat} {p : Parser α}

lemma eats {c : Context} {r s : Reading} {a : α} {m : Nat} (h : Pays none true k p) (hr : Ahead m r)
    (hrun : p c r = .ok (a, s)) : ∃ l, l + 1 ≤ m ∧ Ahead l s := by
  have hpaid := h c (by simp) hr
  rw [hrun] at hpaid
  cases hpaid with
  | ok hl hs => exact ⟨_, hl, hs⟩

/-- At the end there is no token to consume. -/
lemma error_of_end {c : Context} {r : Reading} (h : Pays none true k p) (hr : Ahead 0 r) :
    ∃ i, p c r = .error i := by
  rcases hrun : p c r with i | ⟨a, s⟩
  · exact ⟨i, rfl⟩
  · obtain ⟨l, hl, -⟩ := h.eats hr hrun
    cases hl

lemma mono {b' : Bool} (h : Pays seen b j p) (hb : b' = true → b = true) (hjk : j ≤ k) :
    Pays seen b' k p := by
  intro c r m hseen hr
  apply (h c hseen hr).widen _ (by omega)
  intro i hi
  cases b' with
  | false => exact Nat.le_trans (Nat.le_add_right i _) hi
  | true => rwa [hb rfl] at hi

lemma forget (h : Pays none b k p) : Pays seen b k p := by
  intro c r m _ hr
  exact h c (by simp) hr

lemma pure (a : α) : Pays seen false k (Pure.pure a : Parser α) :=
  fun _ _ _ _ hr => .ok (Nat.le_refl _) hr

lemma reject {e : SyntaxError} (he : e.isTooDeep = false) :
    Pays seen b k (Parser.reject e : Parser α) :=
  fun _ _ _ _ _ => .refused he

lemma mismatch {kind : Kind} : Pays seen b k (Parser.mismatch kind : Parser α) :=
  fun _ _ _ _ _ => .refused rfl

lemma mismatch_bind {kind : Kind} {f : α → Parser β} :
    Pays seen b k (Parser.mismatch kind >>= f) :=
  fun _ _ _ _ _ => .refused rfl

lemma after {f : α → Parser β} (hp : Pays seen true k p) (hf : ∀ a, Pays none false 2 (f a)) :
    Pays seen b k (p >>= f) := by
  intro c r m hseen hr
  have hpaid := hp c hseen hr
  simp only [Bind.bind]
  generalize p c r = x at hpaid
  cases hpaid with
  | ok hl hs => exact (hf _ c (by simp) hs).pay hl
  | tooDeep h => exact .tooDeep h
  | refused he => exact .refused he
  | misspelt => exact .misspelt
  | unfinished => exact .unfinished

lemma seq {f : α → Parser β} (hp : Pays seen false k p) (hf : ∀ a, Pays none b k (f a)) :
    Pays seen b k (p >>= f) := by
  intro c r m hseen hr
  have hpaid := hp c hseen hr
  simp only [Bind.bind]
  generalize p c r = x at hpaid
  cases hpaid with
  | ok hl hs =>
    simp only [Bool.toNat_false] at hl
    apply (hf _ c (by simp) hs).widen
    · intro i hi
      omega
    · omega
  | tooDeep h => exact .tooDeep h
  | refused he => exact .refused he
  | misspelt => exact .misspelt
  | unfinished => exact .unfinished

lemma lookahead {f : Token → Parser β} (h : ∀ t, (∀ u ∈ seen, u = t) → Pays (some t) b k (f t)) :
    Pays seen b k (Parser.lookahead >>= f) := by
  intro c r m hseen hr
  exact h r.lookahead (fun u hu => (hseen u hu).symm) c (by simp) hr

lemma sees {kind : Kind} {q : Parser α} (hp : ∀ t, t.kind = kind → Pays (some t) b k p)
    (hq : Pays seen b k q) :
    Pays seen b k (Parser.sees kind >>= fun b => if b = true then p else q) := by
  intro c r m hseen hr
  by_cases hkind : r.lookahead.kind = kind
  · rw [sees_of_eq hkind]
    exact hp r.lookahead hkind c (by simp) hr
  · rw [sees_of_ne hkind]
    exact hq c hseen hr

lemma advance {f : Token → Parser β} (hkind : t.kind ≠ .endOfFile) (h : Pays none false 2 (f t)) :
    Pays (some t) b k (Parser.advance >>= f) := by
  intro c r m hseen hr
  have ht : r.lookahead = t := hseen t rfl
  simp only [Bind.bind, Parser.advance]
  rcases hnext : r.cursor.next with ⟨e | token, after⟩
  · exact .refused (isTooDeep_of_next hnext)
  · obtain ⟨l, hl, hs⟩ := hr.next (ht ▸ hkind) hnext
    rw [ht]
    exact (h c (by simp) hs).pay hl

lemma advanceInTemplate {f : Token → Parser β} (hkind : t.kind.opensText = true)
    (h : Pays none false 2 (f t)) : Pays (some t) b k (Parser.advanceInTemplate >>= f) := by
  intro c r m hseen hr
  have ht : r.lookahead = t := hseen t rfl
  obtain ⟨l, hl, hs⟩ := hr.nextTemplate (ht ▸ hkind)
  simp only [Bind.bind, Parser.advanceInTemplate]
  rw [ht]
  exact (h c (by simp) hs).pay hl

lemma expect {kind : Kind} {f : Token → Parser β} (hkind : kind ≠ .endOfFile)
    (h : ∀ t, Pays none false 2 (f t)) : Pays seen b k (Parser.expect kind >>= f) := by
  rw [expect_bind_eq]
  apply sees _ mismatch_bind
  intro t ht
  exact advance (ht ▸ hkind) (h t)

lemma expectInTemplate {kind : Kind} {f : Token → Parser β} (hkind : kind.opensText = true)
    (h : ∀ t, Pays none false 2 (f t)) : Pays seen b k (Parser.expectInTemplate kind >>= f) := by
  rw [expectInTemplate_bind_eq]
  apply sees _ mismatch_bind
  intro t ht
  exact advanceInTemplate (ht ▸ hkind) (h t)

lemma spelled {value? : Option α} {f : α → Parser β} (h : ∀ a, Pays none b k (f a)) :
    Pays none b k (Parser.spelled t value? >>= f) := by
  cases value? with
  | none => exact fun _ _ _ _ _ => .misspelt
  | some a => exact h a

lemma lookUp {table : String → Option α} {f : Token → α → Parser β}
    (htable : LooksUp t.kind table) (h : ∀ a, Pays none false 2 (f t a)) :
    Pays (some t) b k
      (Parser.advance >>= fun token => Parser.spelled token (table token.text) >>= f token) :=
  advance htable.ne_endOfFile (spelled h)

lemma nested (h : Pays seen b j p) (hjk : j < k) : Pays seen b k (Parser.nested p) := by
  intro c r m hseen hr
  by_cases hdepth : c.depth < c.limit
  · rw [nested_of_lt hdepth]
    have hpaid := h { c with depth := c.depth + 1 } hseen hr
    generalize p { c with depth := c.depth + 1 } r = x at hpaid
    cases hpaid with
    | ok hl hs => exact .ok hl hs
    | tooDeep h => exact .tooDeep (by simp only at h; omega)
    | refused he => exact .refused he
    | misspelt => exact .misspelt
    | unfinished => exact .unfinished
  · rw [nested_of_le (Nat.le_of_not_lt hdepth)]
    exact .tooDeep (by omega)

lemma inFunction (h : Pays seen b k p) : Pays seen b k (Parser.inFunction p) := by
  intro c r m hseen hr
  unfold Parser.inFunction
  have hpaid := h { c with inFunction := true } hseen hr
  generalize p { c with inFunction := true } r = x at hpaid
  cases hpaid with
  | ok hl hs => exact .ok hl hs
  | tooDeep h => exact .tooDeep h
  | refused he => exact .refused he
  | misspelt => exact .misspelt
  | unfinished => exact .unfinished

lemma guarded {q : Parser α} (hp : Pays seen b k p) (hq : Pays seen b k q) :
    Pays seen b k (context >>= fun c => if c.inFunction = true then p else q) := by
  intro c r m hseen hr
  change Paid c m b k ((if c.inFunction = true then p else q) c r)
  split
  · exact hp c hseen hr
  · exact hq c hseen hr

lemma loop {turn : σ → Parser (Turn σ α)} (h : ∀ x, Pays none false k (turn x)) (bound : Nat)
    (x : σ) : Pays seen false k (Parser.loop turn bound x) := by
  apply forget
  induction bound generalizing x with
  | zero => exact fun _ _ _ _ _ => .unfinished
  | succ bound ih =>
    rw [Parser.loop]
    apply (h x).seq
    intro next
    cases next with
    | again y => exact ih y
    | done a => exact pure a

lemma acceptUnless (kind : Kind) (ends : Kind → Bool) (hkind : kind ≠ .endOfFile) :
    Pays seen false k (acceptUnless kind ends) := by
  intro c r m _ hr
  rw [acceptUnless_run]
  split
  next hfound =>
    rcases hnext : r.cursor.next with ⟨e | token, after⟩
    · exact .refused (isTooDeep_of_next hnext)
    · obtain ⟨l, hl, hs⟩ := hr.next (hfound ▸ hkind) hnext
      simp only
      split
      · exact .ok (Nat.le_refl _) hr
      · exact .ok (Nat.le_of_succ_le hl) hs
  next => exact .ok (Nat.le_refl _) hr

lemma declaresFunction : Pays seen false k declaresFunction := by
  intro c r m _ hr
  rw [declaresFunction_run]
  rcases hnext : r.cursor.next with ⟨e | token, after⟩
  · exact .refused (isTooDeep_of_next hnext)
  · simp only
    split
    · split
      · rcases hlast : after.next with ⟨e | name, last⟩
        · exact .refused (isTooDeep_of_next hlast)
        · exact .ok (Nat.le_refl _) hr
      · exact .ok (Nat.le_refl _) hr
    · exact .ok (Nat.le_refl _) hr

end Pays

/-- A token that the first run may see has one that the second may see at the same time. -/
lemma exists_second {seen : Option (Token × Token)} {t : Token}
    (hseen : ∀ tu ∈ seen, Faces tu.1 tu.2) (ht : ∀ u ∈ seen.map Prod.fst, u = t) :
    ∃ u, Faces t u ∧ ∀ tu ∈ seen, tu = (t, u) := by
  cases seen with
  | none => exact ⟨t, .refl t, by simp⟩
  | some tu =>
    obtain ⟨t', u⟩ := tu
    have heq : t' = t := ht t' rfl
    subst heq
    exact ⟨u, hseen _ rfl, by simp⟩

lemma exists_first {seen : Option (Token × Token)} {u : Token}
    (hseen : ∀ tu ∈ seen, Faces tu.1 tu.2) (hu : ∀ t ∈ seen.map Prod.snd, t = u) :
    ∃ t, Faces t u ∧ ∀ tu ∈ seen, tu = (t, u) := by
  cases seen with
  | none => exact ⟨u, .refl u, by simp⟩
  | some tu =>
    obtain ⟨t, u'⟩ := tu
    have heq : u' = u := hu u' rfl
    subst heq
    exact ⟨t, hseen _ rfl, by simp⟩

section Grammars

variable {g : Grammar} (hg : ∀ goal, Pays none true goal.levels (g.parse goal))

include hg

lemma templatePart_pays (parts : TemplateParts) : Pays none false 2 (g.templatePart parts) := by
  unfold Grammar.templatePart
  apply Pays.lookahead
  intro t _
  split
  next ht => exact Pays.advanceInTemplate (by rw [ht]; rfl) (Pays.pure _)
  next ht =>
    apply Pays.advance (by simp [ht])
    apply Pays.expect (by simp)
    intro _
    apply ((hg .sequence).mono id (by decide)).after
    intro expression
    exact Pays.expectInTemplate rfl fun _ => Pays.pure _
  next ht => exact Pays.advance (by simp [ht]) (Pays.pure _)
  next => exact Pays.mismatch

lemma templateLoop_pays (bound : Nat) (parts : TemplateParts) :
    Pays none false 2 (loop g.templatePart bound parts) :=
  Pays.loop (templatePart_pays hg) bound parts

/-- The brace that closes an insertion, and the parts behind it. -/
lemma closing_pays {b : Bool} (bound : Nat) (parts : TemplateParts) :
    Pays none b 2 (expectInTemplate .rBrace >>= fun _ => loop g.templatePart bound parts) :=
  Pays.expectInTemplate rfl fun _ => templateLoop_pays hg bound parts

/-- The expression of an insertion, and what stands behind it. -/
lemma insertion_pays (bound : Nat) (parts : Node → TemplateParts) :
    Pays none false 2 (g.parse .sequence >>= fun e =>
      expectInTemplate .rBrace >>= fun _ => loop g.templatePart bound (parts e)) :=
  ((hg .sequence).mono (fun _ => rfl) (by decide)).after fun e => closing_pays hg bound (parts e)

lemma templateLiteral_pays {seen : Option Token} {b : Bool} {k : Nat} :
    Pays seen b k g.templateLiteral := by
  unfold Grammar.templateLiteral
  apply Pays.expectInTemplate rfl
  intro _
  exact templateLoop_pays hg _ _

/-- All runs of what is made in the ways of the grammar are paid for. -/
theorem Made.pays {α : Type} {seen : Option (Token × Token)} {x : Traits} {p q : Parser α}
    (h : Made g seen x p q) (hseen : ∀ tu ∈ seen, Faces tu.1 tu.2) :
    Pays (seen.map Prod.fst) x.eats x.levels p ∧ Pays (seen.map Prod.snd) x.eats x.levels q := by
  induction h with
  | pure a => exact ⟨.pure a, .pure a⟩
  | reject he hf => exact ⟨.reject he, .reject hf⟩
  | look h ih =>
    constructor
    · apply Pays.lookahead
      intro t ht
      obtain ⟨u, hfaces, hknown⟩ := exists_second hseen ht
      exact (ih t u hfaces hknown (by simpa using hfaces)).1
    · apply Pays.lookahead
      intro u hu
      obtain ⟨t, hfaces, hknown⟩ := exists_first hseen hu
      exact (ih t u hfaces hknown (by simpa using hfaces)).2
  | take hsame hend h ih =>
    obtain ⟨hfirst, hsecond⟩ := ih (by simp)
    exact ⟨hfirst.advance hend, hsecond.advance (kind_eq hsame ▸ hend)⟩
  | lookUp hsame htable h ih =>
    exact ⟨.lookUp htable fun a => (ih a (by simp)).1,
      .lookUp (kind_eq hsame ▸ htable) fun a => (ih a (by simp)).2⟩
  | after hp hf ihp ihf =>
    obtain ⟨hfirst, hsecond⟩ := ihp hseen
    exact ⟨hfirst.after fun a => (ihf a (by simp)).1, hsecond.after fun a => (ihf a (by simp)).2⟩
  | seq hp hf ihp ihf =>
    obtain ⟨hfirst, hsecond⟩ := ihp hseen
    exact ⟨hfirst.seq fun a => (ihf a (by simp)).1, hsecond.seq fun a => (ihf a (by simp)).2⟩
  | closing hp hf ihp ihf =>
    obtain ⟨hfirst, hsecond⟩ := ihp hseen
    have hfirst' := hfirst.seq fun a => (ihf a (by simp)).1
    have hsecond' := hsecond.seq fun a => (ihf a (by simp)).2
    exact ⟨hfirst'.mono (fun _ => rfl) (Nat.le_refl _),
      hsecond'.mono (fun _ => rfl) (Nat.le_refl _)⟩
  | nested hk h ih => exact ⟨(ih hseen).1.nested hk, (ih hseen).2.nested hk⟩
  | inFunction h ih => exact ⟨(ih hseen).1.inFunction, (ih hseen).2.inFunction⟩
  | guarded hp hq ihp ihq =>
    exact ⟨(ihp hseen).1.guarded (ihq hseen).1, (ihp hseen).2.guarded (ihq hseen).2⟩
  | loop bound y h ih =>
    exact ⟨.loop (fun y => (ih y (by simp)).1) bound y, .loop (fun y => (ih y (by simp)).2) bound y⟩
  | goal goal hk hd =>
    exact ⟨((hg goal).mono (fun _ => rfl) hk).forget, ((hg goal).mono (fun _ => rfl) hk).forget⟩
  | template => exact ⟨templateLiteral_pays hg, templateLiteral_pays hg⟩
  | declares hsame hend => exact ⟨.declaresFunction, .declaresFunction⟩
  | modifier hkind hends hf ih =>
    have hne := Kind.ne_endOfFile_of_isKeyword hkind
    constructor
    · apply Pays.mono _ (fun _ => rfl) (Nat.le_refl _)
      exact (Pays.acceptUnless _ _ hne).seq fun a => (ih a (by simp)).1
    · apply Pays.mono _ (fun _ => rfl) (Nat.le_refl _)
      exact (Pays.acceptUnless _ _ hne).seq fun a => (ih a (by simp)).2
  | cross ht hu hp hq hb hz ihp ihq =>
    have hfirst := (ihp (by simpa using Faces.refl _)).1
    have hsecond := (ihq (by simpa using Faces.refl _)).2
    exact ⟨hfirst.mono (fun _ => rfl) (Nat.le_refl _), hsecond.mono hb (Nat.le_refl _)⟩

end Grammars

/-- Every construct consumes a token, and enters few levels in front of it. -/
theorem Grammar.run_pays (levels : Nat) (goal : Goal) :
    Pays none true goal.levels (run levels goal) := by
  induction levels generalizing goal with
  | zero => exact fun _ _ _ _ _ => .unfinished
  | succ levels ih =>
    have hmade : Made ⟨levels, run levels⟩ none ⟨true, goal.levels, false, true⟩ _ _ :=
      Made.production_made goal (Nat.le_refl _) (by simp)
    exact (hmade.pays ih (by simp)).1

end ScriptTree
