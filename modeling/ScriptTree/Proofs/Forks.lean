import ScriptTree.Proofs.Seam
import ScriptTree.Proofs.Texts

/-!
# One text in front of two endings

Two sources have the same text up to the line in front of a closing parenthesis, and go on behind it
in different ways. Whatever is read inside the text is the same in both. Runs of one parser over the
two sources give the same and stop at the same place, or both of them fail or go on beyond the
parenthesis, where few tokens are left.

Main statement: `Closer.run_twin`.
-/

namespace ScriptTree

open ScriptTree.Parser

namespace Closer

/-- A closing parenthesis with at most so many tokens behind it. No comment and no template text that
begins in front of it ends behind it. -/
structure Ending (z : Closer) (m : Nat) : Prop where
  kind : z.kind = .rParen
  slash : '/' ∉ z.tail
  passable : z.Passable
  ahead : ∀ r : Reading, r.lookahead.kind = .rParen → r.cursor.rest = z.tail → Ahead (m + 1) r
  pos : 0 < m
  next : ∀ x : Cursor, x.rest = z.tail → ∃ t after, x.next = (.ok t, after) ∧ t.kind ≠ .identifier

/-- Readings at the same place of the text, or both in front of the parenthesis. -/
inductive Beside (y z : Closer) (r s : Reading) : Prop where
  | along (x : Reading) (hr : y.Along x r) (hs : z.Along x s)
  | behind (lexeme : r.lookahead.lexeme = s.lookahead.lexeme) (kind : r.lookahead.kind = .rParen)
      (hr : r.cursor.rest = y.tail) (hs : s.cursor.rest = z.tail)

/-- A run that fails or leaves few tokens. -/
def Within {α : Type} (m : Nat) (x : Except Interrupt (α × Reading)) : Prop :=
  ∀ a r, x = .ok (a, r) → Ahead m r

/-- What runs over the two sources come to. -/
inductive Twins (y z : Closer) (m n : Nat) {α : Type} :
    Except Interrupt (α × Reading) → Except Interrupt (α × Reading) → Prop where
  | ok {a : α} {r s : Reading} (h : Beside y z r s) : Twins y z m n (.ok (a, r)) (.ok (a, s))
  | apart {x w : Except Interrupt (α × Reading)} (hx : Within m x) (hw : Within n w) :
      Twins y z m n x w

/-- All runs of two parsers from the same place come to the same. -/
def Twin (y z : Closer) (m n : Nat) {α : Type} (seen : Option (Token × Token)) (p q : Parser α) :
    Prop :=
  ∀ (c : Context) (r s : Reading), Beside y z r s →
    (∀ tu ∈ seen, tu = (r.lookahead, s.lookahead)) → Twins y z m n (p c r) (q c s)

variable {α β σ : Type} {y z : Closer} {m n k : Nat} {e : Bool} {r s : Reading} {t u : Token}
  {seen : Option (Token × Token)} {p q : Parser α}

lemma Beside.lexeme_eq (h : Beside y z r s) : r.lookahead.lexeme = s.lookahead.lexeme := by
  cases h with
  | along x hr hs => exact hr.lexeme.symm.trans hs.lexeme
  | behind lexeme => exact lexeme

lemma Beside.kind_eq (h : Beside y z r s) : r.lookahead.kind = s.lookahead.kind :=
  Made.kind_eq h.lexeme_eq

lemma within_error (i : Interrupt) : Within m (.error i : Except Interrupt (α × Reading)) := by
  rintro a r ⟨⟩

lemma text_of_rParen {x after : Cursor} (hnext : x.next = (.ok t, after)) (hkind : t.kind = .rParen) :
    t.lexeme = (.rParen, ")") := by
  obtain ⟨-, hspells⟩ := (Cursor.lexical_of_next hnext).is hkind rfl
  have htext : t.text ∈ [")"] := hspells.mem_spellings (by decide)
  rw [Token.lexeme, hkind, List.mem_singleton.1 htext]

/-- What is read next inside the text, if there is no fault. -/
lemma next_beside {x v w : Cursor} (hy : y.Ending m) (hz : z.Ending n)
    (hv : v.rest = x.rest ++ y.text) (hw : w.rest = x.rest ++ z.text) :
    (∃ e f a b, v.next = (.error e, a) ∧ w.next = (.error f, b)) ∨
      ∃ t u a b, v.next = (.ok t, a) ∧ w.next = (.ok u, b) ∧ Beside y z ⟨t, a⟩ ⟨u, b⟩ := by
  have hfirst := next_append hv (Or.inl hy.slash)
  have hsecond := next_append hw (Or.inl hz.slash)
  generalize x.next = outcome at hfirst hsecond
  generalize hv : v.next = first at hfirst
  generalize hw : w.next = second at hsecond
  cases hfirst with
  | fault =>
    cases hsecond with
    | fault => exact Or.inl ⟨_, _, _, _, rfl, rfl⟩
  | token hfirst =>
    cases hsecond with
    | token hsecond =>
      refine Or.inr ⟨_, _, _, _, rfl, rfl, ?_⟩
      cases hfirst with
      | along hfirst => exact .along _ hfirst (hsecond.along_of_ne hfirst.kind_ne)
      | behind hfirst =>
        cases hsecond with
        | along hsecond => exact absurd hfirst.kind hsecond.kind_ne
        | behind hsecond =>
          have hkind := hfirst.bracket.trans hy.kind
          refine .behind ?_ hkind hfirst.tail hsecond.tail
          exact (text_of_rParen hv hkind).trans
            (text_of_rParen hw (hsecond.bracket.trans hz.kind)).symm

/-- What is read of the text in front of one ending is read in front of the other. -/
lemma exists_beside {x v w : Cursor} (hy : y.Ending m) (hz : z.Ending n)
    (hv : v.rest = x.rest ++ y.text) (hw : w.rest = x.rest ++ z.text)
    (hr : v.next = (.ok r.lookahead, r.cursor)) :
    ∃ s : Reading, w.next = (.ok s.lookahead, s.cursor) ∧ Beside y z r s := by
  rcases next_beside hy hz hv hw with ⟨e, f, a, b, hfault, -⟩ | ⟨t, u, a, b, ht, hu, hbeside⟩
  · rw [hr] at hfault
    cases hfault
  · obtain ⟨hlookahead, hcursor⟩ := Prod.mk.inj (hr.symm.trans ht)
    cases hlookahead
    cases hcursor
    exact ⟨⟨u, b⟩, hu, hbeside⟩

/-- Behind a piece of text in a template there is its end, if it is not the end of the source. -/
lemma nextTemplate_rest (x : Cursor) (h : x.nextTemplate.1.kind = .templateString) :
    x.nextTemplate.2.rest = [] ∨ ∃ tail, x.nextTemplate.2.rest = '\x60' :: tail := by
  rcases hx : x.rest with _ | ⟨c, cs⟩
  · rw [Cursor.nextTemplate_of_nil hx] at h
    cases h
  · by_cases htick : c = '\x60'
    · rw [Cursor.nextTemplate_of_backtick (htick ▸ hx)] at h
      cases h
    by_cases hbrace : c = '\x7d'
    · rw [Cursor.nextTemplate_of_brace (hbrace ▸ hx)] at h
      cases h
    rcases drop_templateLength x.rest with hend | ⟨tail, hend⟩ | ⟨tail, hend⟩
    · rw [Cursor.nextTemplate_of_plain hx htick hbrace (by simp [hend])]
      exact Or.inl hend
    · rw [Cursor.nextTemplate_of_plain hx htick hbrace (by simp [hend])]
      exact Or.inr ⟨tail, hend⟩
    · rw [Cursor.nextTemplate_of_insertion hx htick hbrace hend] at h
      cases h

/-- The same piece of a template is read in both sources, or it runs to the end of both. -/
lemma nextTemplate_beside {x v w : Cursor} (hy : y.Ending m) (hz : z.Ending n)
    (hv : v.rest = x.rest ++ y.text) (hw : w.rest = x.rest ++ z.text) :
    Beside y z ⟨v.nextTemplate.1, v.nextTemplate.2⟩ ⟨w.nextTemplate.1, w.nextTemplate.2⟩ ∨
      ((v.nextTemplate.1.kind = .templateString ∧ v.nextTemplate.2.rest = []) ∧
        w.nextTemplate.1.kind = .templateString ∧ w.nextTemplate.2.rest = []) := by
  have hne : ∀ {z : Closer} {w : Cursor},
      z.Along ⟨x.nextTemplate.1, x.nextTemplate.2⟩ ⟨w.nextTemplate.1, w.nextTemplate.2⟩ →
        ¬(x.nextTemplate.1.kind = .templateString ∧ x.nextTemplate.2.rest = []) := by
    rintro z w halong ⟨hkind, hnil⟩
    have hrest : w.nextTemplate.2.rest = z.text := by
      have hrest := halong.rest
      rwa [hnil, List.nil_append] at hrest
    rcases nextTemplate_rest w (Made.kind_eq halong.lexeme ▸ hkind) with hend | ⟨tail, hend⟩ <;>
      rw [hrest] at hend <;> cases hend
  rcases nextTemplate_append hv (Or.inl hy.slash) with hfirst | hfirst <;>
    rcases nextTemplate_append hw (Or.inl hz.slash) with hsecond | hsecond
  · exact Or.inl (.along _ hfirst hsecond)
  · rcases hsecond.kind with hkind | hkind
    · exact absurd hkind hfirst.kind_ne
    · exact absurd ⟨hkind, hsecond.rest⟩ (hne hfirst)
  · rcases hfirst.kind with hkind | hkind
    · exact absurd hkind hsecond.kind_ne
    · exact absurd ⟨hkind, hfirst.rest⟩ (hne hsecond)
  · exact Or.inr ⟨hfirst.second hy.passable, hsecond.second hz.passable⟩

lemma Within.bind {c : Context} {f : α → Parser β} (h : Within m (p c r))
    (hf : ∀ a, Pays none e k (f a)) : Within m ((p >>= f) c r) := by
  intro b s hrun
  obtain ⟨a, v, hp, hrest⟩ := bind_eq_ok.1 hrun
  have hpaid := hf a c (by simp) (h a v hp)
  rw [hrest] at hpaid
  cases hpaid with
  | ok hl hs => exact hs.mono (Nat.le_of_add_right_le hl)

namespace Twin

lemma forget (h : Twin y z m n none p q) : Twin y z m n seen p q :=
  fun c r s hr _ => h c r s hr (by simp)

lemma pure (a : α) : Twin y z m n seen (Pure.pure a : Parser α) (Pure.pure a) :=
  fun _ _ _ hr _ => .ok hr

lemma reject {e f : SyntaxError} :
    Twin y z m n seen (Parser.reject e : Parser α) (Parser.reject f) :=
  fun _ _ _ _ _ => .apart (within_error _) (within_error _)

lemma look {f f' : Token → Parser α} (h : ∀ t u, t.lexeme = u.lexeme →
      (∀ tu ∈ seen, tu = (t, u)) → Twin y z m n (some (t, u)) (f t) (f' u)) :
    Twin y z m n seen (lookahead >>= f) (lookahead >>= f') := by
  intro c r s hr hseen
  exact h r.lookahead s.lookahead hr.lexeme_eq hseen c r s hr (by simp)

lemma bind {f f' : α → Parser β} (hp : Twin y z m n seen p q)
    (hf : ∀ a, Twin y z m n none (f a) (f' a)) (hpays : ∀ a, Pays none e k (f a))
    (hpays' : ∀ a, Pays none e k (f' a)) : Twin y z m n seen (p >>= f) (q >>= f') := by
  intro c r s hr hseen
  have htwins := hp c r s hr hseen
  generalize hx : p c r = x at htwins
  generalize hw : q c s = w at htwins
  cases htwins with
  | ok h =>
    simp only [Bind.bind, hx, hw]
    exact hf _ c _ _ h (by simp)
  | apart hfirst hsecond =>
    subst hx hw
    exact .apart (hfirst.bind hpays) (hsecond.bind hpays')

lemma nested (h : Twin y z m n seen p q) :
    Twin y z m n seen (Parser.nested p) (Parser.nested q) := by
  intro c r s hr hseen
  unfold Parser.nested
  split
  · exact .apart (within_error _) (within_error _)
  · exact h _ r s hr hseen

lemma inFunction (h : Twin y z m n seen p q) :
    Twin y z m n seen (Parser.inFunction p) (Parser.inFunction q) :=
  fun _ r s hr hseen => h _ r s hr hseen

lemma guarded {p' q' : Parser α} (hp : Twin y z m n seen p p') (hq : Twin y z m n seen q q') :
    Twin y z m n seen (context >>= fun c => if c.inFunction = true then p else q)
      (context >>= fun c => if c.inFunction = true then p' else q') := by
  intro c r s hr hseen
  change Twins y z m n ((if c.inFunction = true then p else q) c r)
    ((if c.inFunction = true then p' else q') c s)
  split
  · exact hp c r s hr hseen
  · exact hq c r s hr hseen

lemma loop {turn turn' : σ → Parser (Turn σ α)} (h : ∀ x, Twin y z m n none (turn x) (turn' x))
    (hpays : ∀ x, Pays none false k (turn x)) (hpays' : ∀ x, Pays none false k (turn' x))
    (bound : Nat) (x : σ) :
    Twin y z m n seen (Parser.loop turn bound x) (Parser.loop turn' bound x) := by
  apply forget
  induction bound generalizing x with
  | zero => exact fun _ _ _ _ _ => .apart (within_error _) (within_error _)
  | succ bound ih =>
    rw [Parser.loop, Parser.loop]
    refine Twin.bind (e := false) (k := k) (h x) (fun next => ?_) (fun next => ?_) (fun next => ?_)
    · cases next with
      | again x => exact ih x
      | done a => exact pure a
    · cases next with
      | again x => exact Pays.loop hpays bound x
      | done a => exact Pays.pure a
    · cases next with
      | again x => exact Pays.loop hpays' bound x
      | done a => exact Pays.pure a

section Tokens

variable (hy : y.Ending m) (hz : z.Ending n)

include hy hz

lemma take {f f' : Token → Parser α} (h : Twin y z m n none (f t) (f' u))
    (hpays : Pays none false 2 (f t)) (hpays' : Pays none false 2 (f' u)) :
    Twin y z m n (some (t, u)) (advance >>= f) (advance >>= f') := by
  intro c r s hr hseen
  obtain ⟨rfl, rfl⟩ := Prod.mk.inj (hseen _ rfl)
  cases hr with
  | along x hr hs =>
    rcases next_beside hy hz hr.rest hs.rest with
      ⟨e, f, a, b, hv, hw⟩ | ⟨t, u, a, b, hv, hw, hnext⟩
    · simp only [Bind.bind, advance, hv, hw]
      exact .apart (within_error _) (within_error _)
    · simp only [Bind.bind, advance, hv, hw]
      exact h c _ _ hnext (by simp)
  | behind lexeme kind hr hs =>
    have hkind : s.lookahead.kind = .rParen := (Made.kind_eq lexeme).symm.trans kind
    have hbeyond : ∀ {z : Closer} {n : Nat} {s : Reading} {f : Token → Parser α}, z.Ending n →
        s.lookahead.kind = .rParen → s.cursor.rest = z.tail → Pays none false 2 (f s.lookahead) →
        Within n ((advance >>= f) c s) := by
      intro z n s f hz hkind hs hpays
      have hadvance : Within n ((advance >>= fun t => Pure.pure t) c s) := by
        intro a v hrun
        obtain ⟨t, w, hadvance, hpure⟩ := bind_eq_ok.1 hrun
        obtain ⟨-, token, after, hnext, rfl⟩ := advance_eq_ok hadvance
        cases hpure
        obtain ⟨l, hl, hahead⟩ := (hz.ahead s hkind hs).next (by simp [hkind]) hnext
        exact hahead.mono (by omega)
      intro b v hrun
      obtain ⟨t, w, hrun, hrest⟩ := bind_eq_ok.1 hrun
      have hahead := hadvance t w (bind_eq_ok.2 ⟨t, w, hrun, rfl⟩)
      obtain ⟨rfl, -⟩ := advance_eq_ok hrun
      have hpaid := hpays c (by simp) hahead
      rw [hrest] at hpaid
      cases hpaid with
      | ok hl hs => exact hs.mono (Nat.le_of_add_right_le hl)
    exact .apart (hbeyond hy kind hr hpays) (hbeyond hz hkind hs hpays')

lemma lookUp {table : String → Option β} {f f' : Token → β → Parser α}
    (hsame : t.lexeme = u.lexeme)
    (h : ∀ b, Twin y z m n none (f t b) (f' u b)) (hpays : ∀ b, Pays none false 2 (f t b))
    (hpays' : ∀ b, Pays none false 2 (f' u b)) :
    Twin y z m n (some (t, u))
      (advance >>= fun token => spelled token (table token.text) >>= f token)
      (advance >>= fun token => spelled token (table token.text) >>= f' token) := by
  apply take hy hz
  · rw [← Made.text_eq hsame]
    cases table t.text with
    | none => exact fun _ _ _ _ _ => .apart (within_error _) (within_error _)
    | some b => exact h b
  · exact .spelled hpays
  · exact .spelled hpays'

lemma expect {kind : Kind} {f f' : Token → Parser α}
    (hf : ∀ t u, t.lexeme = u.lexeme → Twin y z m n none (f t) (f' u))
    (hpays : ∀ t, Pays none false 2 (f t)) (hpays' : ∀ u, Pays none false 2 (f' u)) :
    Twin y z m n seen (Parser.expect kind >>= f) (Parser.expect kind >>= f') := by
  rw [expect_bind_eq, expect_bind_eq]
  intro c r s hr _
  change Twins y z m n
    ((if (r.lookahead.kind == kind) = true then advance >>= f else _ : Parser α) c r)
    ((if (s.lookahead.kind == kind) = true then advance >>= f' else _ : Parser α) c s)
  rw [hr.kind_eq]
  split
  next => exact take hy hz (hf _ _ hr.lexeme_eq) (hpays _) (hpays' _) c r s hr (by simp)
  next => exact .apart (within_error _) (within_error _)

/-- Template text behind a token that both runs look for. -/
lemma expectInTemplate {kind : Kind} (hkind : kind.opensText = true)
    (hp : ∀ c r s, Beside y z r s ∨ ((r.lookahead.kind = .templateString ∧ r.cursor.rest = []) ∧
      s.lookahead.kind = .templateString ∧ s.cursor.rest = []) → Twins y z m n (p c r) (q c s)) :
    Twin y z m n seen (Parser.expectInTemplate kind >>= fun _ => p)
      (Parser.expectInTemplate kind >>= fun _ => q) := by
  rw [expectInTemplate_bind_eq, expectInTemplate_bind_eq]
  intro c r s hr _
  change Twins y z m n
    ((if (r.lookahead.kind == kind) = true then advanceInTemplate >>= fun _ => p else _ :
      Parser α) c r)
    ((if (s.lookahead.kind == kind) = true then advanceInTemplate >>= fun _ => q else _ :
      Parser α) c s)
  rw [← hr.kind_eq]
  split
  next hfound =>
    cases hr with
    | along x hr hs => exact hp c _ _ (nextTemplate_beside hy hz hr.rest hs.rest)
    | behind lexeme hend =>
      rw [← beq_iff_eq.1 hfound, hend] at hkind
      cases hkind
  next => exact .apart (within_error _) (within_error _)

lemma declares :
    Twin y z m n (some (t, u)) declaresFunction declaresFunction := by
  intro c r s hr _
  rw [declaresFunction_run, declaresFunction_run, ← hr.kind_eq]
  cases hr with
  | along x hr hs =>
    have hbeside := Beside.along x hr hs
    rcases next_beside hy hz hr.rest hs.rest with
      ⟨e, f, a, b, hv, hw⟩ | ⟨t, u, a, b, hv, hw, hnext⟩
    · simp only [hv, hw]
      exact .apart (within_error _) (within_error _)
    have hkind : t.kind = u.kind := hnext.kind_eq
    simp only [hv, hw, ← hkind]
    split
    next hasync =>
      split
      next hword =>
        cases hnext with
        | behind lexeme hparen =>
          rw [show t.kind = .rParen from hparen] at hword
          rcases hword with h | h <;> cases h
        | along x' ha hb =>
          rcases next_beside hy hz ha.rest hb.rest with
            ⟨e, f, a', b', hv, hw⟩ | ⟨t', u', a', b', hv, hw, hname⟩
          · simp only at hv hw
            simp only [hv, hw]
            exact .apart (within_error _) (within_error _)
          · have hkind : t'.kind = u'.kind := hname.kind_eq
            simp only at hv hw
            simp only [hv, hw, hkind]
            exact .ok hbeside
      next => exact .ok hbeside
    next => exact .ok hbeside
  | behind lexeme hkind hr hs =>
    obtain ⟨t, a, hv, ht⟩ := hy.next _ hr
    obtain ⟨u, b, hw, hu⟩ := hz.next _ hs
    have hfirst : (t.kind == .identifier) = false := beq_eq_false_iff_ne.2 ht
    have hsecond : (u.kind == .identifier) = false := beq_eq_false_iff_ne.2 hu
    simp only [hkind, hv, hw, hfirst, hsecond]
    exact .ok (.behind lexeme hkind hr hs)

lemma modifier {kind : Kind} {ends : Kind → Bool} {f f' : Bool → Parser α}
    (hkind : kind.isKeyword = true) (hf : ∀ a, Twin y z m n none (f a) (f' a)) :
    Twin y z m n seen (acceptUnless kind ends >>= f) (acceptUnless kind ends >>= f') := by
  intro c r s hr _
  simp only [Bind.bind, acceptUnless_run, ← hr.kind_eq]
  by_cases hfound : r.lookahead.kind = kind
  · simp only [if_pos hfound]
    cases hr with
    | behind lexeme hparen =>
      rw [← hfound, hparen] at hkind
      cases hkind
    | along x hr hs =>
      rcases next_beside hy hz hr.rest hs.rest with
        ⟨e, f, a, b, hv, hw⟩ | ⟨t, u, a, b, hv, hw, hnext⟩
      · simp only [hv, hw]
        exact .apart (within_error _) (within_error _)
      have hsame : t.kind = u.kind := hnext.kind_eq
      simp only [hv, hw, ← hsame]
      by_cases hname : ends t.kind = true
      · simp only [if_pos hname]
        exact hf false c r s (.along x hr hs) (by simp)
      · simp only [if_neg hname]
        exact hf true c _ _ hnext (by simp)
  · simp only [if_neg hfound]
    exact hf false c r s hr (by simp)

end Tokens

/-- The text has no end of the source in it. -/
lemma cross (hend : t.kind = .endOfFile) (hu : u.kind = .rBrace ∨ u.kind = .rParen) :
    Twin y z m n (some (t, u)) p q := by
  intro c r s hr hseen
  obtain ⟨rfl, rfl⟩ := Prod.mk.inj (hseen _ rfl)
  rw [← hr.kind_eq, hend] at hu
  rcases hu with h | h <;> cases h

end Twin

section Grammars

variable {g : Grammar} {c : Context}

/-- One construct behind another, which is paid for. -/
lemma bind_twin {x : Traits} {f f' : α → Parser β}
    (hpays : ∀ goal, Pays none true goal.levels (g.parse goal)) (hp : Twin y z m n seen p q)
    (hf : ∀ a, Made g none x (f a) (f' a)) (h : ∀ a, Twin y z m n none (f a) (f' a)) :
    Twin y z m n seen (p >>= f) (q >>= f') :=
  hp.bind h (fun a => ((hf a).pays hpays (by simp)).1) fun a => ((hf a).pays hpays (by simp)).2

variable (hy : y.Ending m) (hz : z.Ending n)
  (htwin : ∀ goal, Twin y z m n none (g.parse goal) (g.parse goal))
  (hpays : ∀ goal, Pays none true goal.levels (g.parse goal))

include hy hz htwin hpays

lemma templateLoop_twins (bound : Nat) (parts : TemplateParts)
    (hr : Beside y z r s ∨ ((r.lookahead.kind = .templateString ∧ r.cursor.rest = []) ∧
      s.lookahead.kind = .templateString ∧ s.cursor.rest = [])) :
    Twins y z m n (loop g.templatePart bound parts c r) (loop g.templatePart bound parts c s) := by
  induction bound generalizing parts c r s with
  | zero => exact .apart (within_error _) (within_error _)
  | succ bound ih =>
    rcases hr with hr | ⟨⟨hr, hrnil⟩, hs, hsnil⟩
    · have hkind := hr.kind_eq
      by_cases htext : r.lookahead.kind = .templateString
      · rw [templateLoop_text bound parts htext, templateLoop_text bound parts (hkind ▸ htext),
          Made.text_eq hr.lexeme_eq]
        cases hr with
        | behind lexeme hparen =>
          rw [hparen] at htext
          cases htext
        | along x hr hs => exact ih _ (nextTemplate_beside hy hz hr.rest hs.rest)
      by_cases hinsertion : r.lookahead.kind = .dollarBrace
      · rw [templateLoop_insertion bound parts hinsertion,
          templateLoop_insertion bound parts (hkind ▸ hinsertion)]
        have hinner := insertion_pays hpays bound
        have hopen : ∀ parts : Node → TemplateParts, Pays none false 2
            (expect .lBrace >>= fun _ => g.parse .sequence >>= fun e =>
              expectInTemplate .rBrace >>= fun _ => loop g.templatePart bound (parts e)) :=
          fun parts => Pays.expect (by decide) fun _ => hinner parts
        refine Twin.take hy hz (t := r.lookahead) (u := s.lookahead) ?_ (hopen _) (hopen _) c r s hr
          (by simp)
        refine Twin.expect hy hz (fun _ _ _ => ?_) (fun _ => hinner _) (fun _ => hinner _)
        rw [Made.text_eq hr.lexeme_eq]
        have hclose : ∀ parts, Pays none false 2 _ := closing_pays hpays bound
        refine (htwin .sequence).bind (fun e => ?_) (fun e => hclose _) (fun e => hclose _)
        exact Twin.expectInTemplate hy hz rfl fun c r s hr => ih _ hr
      by_cases hend : r.lookahead.kind = .backtick
      · rw [templateLoop_end bound parts hend, templateLoop_end bound parts (hkind ▸ hend)]
        have hdone : Pays none false 2 (Pure.pure parts.toNode : Parser Node) := Pays.pure _
        have htake : Twin y z m n (some (r.lookahead, s.lookahead))
            (advance >>= fun _ => (Pure.pure parts.toNode : Parser Node))
            (advance >>= fun _ => Pure.pure parts.toNode) :=
          .take hy hz (.pure _) hdone hdone
        exact htake c r s hr (by simp)
      · rw [templateLoop_refused bound parts htext hinsertion hend,
          templateLoop_refused bound parts (hkind ▸ htext) (hkind ▸ hinsertion) (hkind ▸ hend)]
        exact .apart (within_error _) (within_error _)
    · obtain ⟨i, hi⟩ := templateLoop_of_text (g := g) (c := c) (bound + 1) parts hr hrnil
      obtain ⟨j, hj⟩ := templateLoop_of_text (g := g) (c := c) (bound + 1) parts hs hsnil
      rw [hi, hj]
      exact .apart (within_error _) (within_error _)

/-- All that is made in the ways of the grammar comes to the same in front of both endings. -/
theorem made_twin {α : Type} {seen : Option (Token × Token)} {x : Traits} {p q : Parser α}
    (h : Made g seen x p q) (hseen : ∀ tu ∈ seen, Faces tu.1 tu.2) :
    Twin y z m n seen p q := by
  induction h with
  | pure a => exact .pure a
  | reject => exact .reject
  | look h ih =>
    apply Twin.look
    intro t u hlexeme hknown
    exact ih t u (.same hlexeme) hknown (by simpa using Faces.same hlexeme)
  | take hsame hend h ih =>
    obtain ⟨hp, hq⟩ := h.pays hpays (by simp)
    exact .take hy hz (ih (by simp)) hp hq
  | lookUp hsame htable h ih =>
    exact .lookUp hy hz hsame (fun a => ih a (by simp))
      (fun a => ((h a).pays hpays (by simp)).1) fun a => ((h a).pays hpays (by simp)).2
  | after hp hf ihp ihf => exact bind_twin hpays (ihp hseen) hf fun a => ihf a (by simp)
  | seq hp hf ihp ihf => exact bind_twin hpays (ihp hseen) hf fun a => ihf a (by simp)
  | closing hp hf ihp ihf => exact bind_twin hpays (ihp hseen) hf fun a => ihf a (by simp)
  | nested hk h ih => exact (ih hseen).nested
  | inFunction h ih => exact (ih hseen).inFunction
  | guarded hp hq ihp ihq => exact (ihp hseen).guarded (ihq hseen)
  | loop bound x h ih =>
    exact .loop (fun x => ih x (by simp)) (fun x => ((h x).pays hpays (by simp)).1)
      (fun x => ((h x).pays hpays (by simp)).2) bound x
  | goal goal hk hd => exact (htwin goal).forget
  | template =>
    unfold Grammar.templateLiteral
    exact .expectInTemplate hy hz rfl fun c r s hr => templateLoop_twins hy hz htwin hpays _ _ hr
  | declares => exact .declares hy hz
  | modifier hkind hends hf ih => exact .modifier hy hz hkind fun a => ih a (by simp)
  | cross ht hu => exact .cross ht hu

end Grammars

/-- Every construct comes to the same in front of both endings. -/
theorem run_twin (hy : y.Ending m) (hz : z.Ending n) (levels : Nat) (goal : Goal) :
    Twin y z m n none (Grammar.run levels goal) (Grammar.run levels goal) := by
  induction levels generalizing goal with
  | zero => exact fun _ _ _ _ _ => .apart (within_error _) (within_error _)
  | succ levels ih =>
    have hmade : Made ⟨levels, Grammar.run levels⟩ none ⟨true, goal.levels, false, true⟩ _ _ :=
      Made.production_made goal (Nat.le_refl _) (by simp)
    exact made_twin hy hz ih (Grammar.run_pays levels) hmade (by simp)

end Closer

end ScriptTree
