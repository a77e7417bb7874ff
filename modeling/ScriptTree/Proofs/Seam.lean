import ScriptTree.Proofs.Closer

/-!
# Constructs in front of a closing bracket

Two runs of the same parser, one over a text and one over that text with a closing bracket behind
it, have as many levels of nesting left. If the first one succeeds, the second one does the same. If
the first one is refused, then so is the second one, unless it goes on over the bracket.

Main statement: `Closer.run_join`.
-/

namespace ScriptTree

open ScriptTree.Parser

/-- Two contexts with as many levels left. -/
structure Context.Alike (c d : Context) : Prop where
  levels : c.limit + d.depth = d.limit + c.depth
  inFunction : c.inFunction = d.inFunction

namespace Closer

variable {z : Closer} {r s : Reading}

lemma kind_cases (z : Closer) : z.kind = .rBrace ∨ z.kind = .rParen :=
  z.closes.imp And.left And.left

lemma At.faces (h : z.At r s) : Faces r.lookahead s.lookahead := by
  cases h with
  | along h => exact .same h.lexeme
  | behind h => exact .edge h.kind (h.bracket ▸ z.kind_cases)

lemma Behind.first (h : z.Behind r s) : Ahead 0 r :=
  ⟨h.kind, h.rest⟩

lemma Behind.second (h : z.Behind r s) (hz : z.tail = []) : Ahead 1 s :=
  .of_nil (h.tail.trans hz)

lemma Along.next (h : z.Along r s) : z.Heads r.cursor.next s.cursor.next :=
  next_append h.rest h.suits

lemma At.along_of_ne (h : z.At r s) (hkind : r.lookahead.kind ≠ .endOfFile) : z.Along r s := by
  cases h with
  | along h => exact h
  | behind h => exact absurd h.kind hkind

lemma At.kind_iff (h : z.At r s) {kind : Kind} (hkind : kind.isEdge = false) :
    r.lookahead.kind = kind ↔ s.lookahead.kind = kind := by
  cases h with
  | along h => rw [Made.kind_eq h.lexeme]
  | behind h =>
    rw [h.kind, h.bracket]
    constructor
    · rintro rfl
      cases hkind
    · rintro rfl
      rcases z.kind_cases with hz | hz <;> rw [hz] at hkind <;> cases hkind

lemma At.kind_beq (h : z.At r s) {kind : Kind} (hkind : kind.isEdge = false) :
    (r.lookahead.kind == kind) = (s.lookahead.kind == kind) := by
  rw [Bool.eq_iff_iff, beq_iff_eq, beq_iff_eq]
  exact h.kind_iff hkind

/-- What two runs come to. -/
inductive Joins (z : Closer) {α : Type} (outer : Bool) :
    Except Interrupt (α × Reading) → Except Interrupt (α × Reading) → Prop where
  | ok {a : α} {r s : Reading} (h : z.At r s) : Joins z outer (.ok (a, r)) (.ok (a, s))
  | error {i j : Interrupt} : Joins z outer (.error i) (.error j)
  /-- The second run goes on to the bracket, and over it if it is an outer one. -/
  | past {i : Interrupt} {a : α} {s : Reading} (h : z.tail = [] → Ahead (!outer).toNat s) :
      Joins z outer (.error i) (.ok (a, s))

lemma Joins.weaken {α : Type} {outer : Bool} {x y : Except Interrupt (α × Reading)}
    (h : z.Joins true x y) : z.Joins outer x y := by
  cases h with
  | ok h => exact .ok h
  | error => exact .error
  | past h => exact .past fun hz => (h hz).mono (Nat.zero_le _)

/-- A second run that is paid for leaves few tokens. -/
lemma Joins.of_paid {α : Type} {outer eats : Bool} {d : Context} {m k : Nat} {i : Interrupt}
    {y : Except Interrupt (α × Reading)} (h : z.tail = [] → Paid d m eats k y)
    (hm : m ≤ eats.toNat + (!outer).toNat) : z.Joins outer (.error i) y := by
  rcases y with j | ⟨a, s⟩
  · exact .error
  · refine .past fun hz => ?_
    cases h hz with
    | ok hk hs => exact hs.mono (by omega)

/-- All runs of two parsers come to the same. -/
def Join (z : Closer) {α : Type} (seen : Option (Token × Token)) (outer : Bool) (p q : Parser α) :
    Prop :=
  ∀ (c d : Context) (r s : Reading), c.Alike d → z.At r s →
    (∀ tu ∈ seen, tu = (r.lookahead, s.lookahead)) → z.Joins outer (p c r) (q d s)

namespace Join

variable {α β σ : Type} {seen : Option (Token × Token)} {o o' e : Bool} {k : Nat} {t u : Token}
  {p q : Parser α}

lemma forget (h : z.Join none o p q) : z.Join seen o p q :=
  fun c d r s hc hr _ => h c d r s hc hr (by simp)

lemma pure (a : α) : z.Join seen o (Pure.pure a : Parser α) (Pure.pure a) :=
  fun _ _ _ _ _ hr _ => .ok hr

lemma reject {e f : SyntaxError} : z.Join seen o (Parser.reject e : Parser α) (Parser.reject f) :=
  fun _ _ _ _ _ _ _ => .error

lemma look {f f' : Token → Parser α}
    (h : ∀ t u, Faces t u → (∀ tu ∈ seen, tu = (t, u)) → z.Join (some (t, u)) o (f t) (f' u)) :
    z.Join seen o (lookahead >>= f) (lookahead >>= f') := by
  intro c d r s hc hr hseen
  exact h r.lookahead s.lookahead hr.faces hseen c d r s hc hr (by simp)

lemma take {f f' : Token → Parser α} (hend : t.kind ≠ .endOfFile) (h : z.Join none o (f t) (f' u)) :
    z.Join (some (t, u)) o (advance >>= f) (advance >>= f') := by
  intro c d r s hc hr hseen
  obtain ⟨rfl, rfl⟩ := Prod.mk.inj (hseen _ rfl)
  have hheads := (hr.along_of_ne hend).next
  simp only [Bind.bind, advance]
  generalize r.cursor.next = x at hheads
  generalize s.cursor.next = y at hheads
  cases hheads with
  | fault => exact .error
  | token hnext => exact h c d _ _ hc hnext (by simp)

lemma lookUp {table : String → Option α} {f f' : Token → α → Parser β} (hsame : t.lexeme = u.lexeme)
    (htable : LooksUp t.kind table) (h : ∀ a, z.Join none o (f t a) (f' u a)) :
    z.Join (some (t, u)) o
      (advance >>= fun token => spelled token (table token.text) >>= f token)
      (advance >>= fun token => spelled token (table token.text) >>= f' token) := by
  apply take htable.ne_endOfFile
  rw [← Made.text_eq hsame]
  cases table t.text with
  | none => exact fun _ _ _ _ _ _ _ => .error
  | some a => exact h a

/-- Behind a second run that went on to the bracket, the next parser leaves no more. -/
lemma bind {f f' : α → Parser β} (hp : z.Join seen o p q) (hf : ∀ a, z.Join none o' (f a) (f' a))
    (hpays : ∀ a, Pays none e k (f' a)) (ho : (!o).toNat ≤ e.toNat + (!o').toNat) :
    z.Join seen o' (p >>= f) (q >>= f') := by
  intro c d r s hc hr hseen
  have hjoins := hp c d r s hc hr hseen
  simp only [Bind.bind]
  generalize p c r = x at hjoins
  generalize q d s = y at hjoins
  cases hjoins with
  | ok h => exact hf _ c d _ _ hc h (by simp)
  | error => exact .error
  | past h => exact .of_paid (fun hz => hpays _ d (by simp) (h hz)) ho

lemma nested (h : z.Join seen o p q) : z.Join seen o (Parser.nested p) (Parser.nested q) := by
  intro c d r s hc hr hseen
  have hlevels := hc.levels
  by_cases hdepth : c.depth < c.limit
  · rw [nested_of_lt hdepth, nested_of_lt (by omega)]
    exact h _ _ r s ⟨by simp only; omega, hc.inFunction⟩ hr hseen
  · rw [nested_of_le (by omega), nested_of_le (by omega)]
    exact .error

lemma inFunction (h : z.Join seen o p q) :
    z.Join seen o (Parser.inFunction p) (Parser.inFunction q) := by
  intro c d r s hc hr hseen
  exact h _ _ r s ⟨hc.levels, rfl⟩ hr hseen

lemma guarded {p' q' : Parser α} (hp : z.Join seen o p p') (hq : z.Join seen o q q') :
    z.Join seen o (context >>= fun c => if c.inFunction = true then p else q)
      (context >>= fun c => if c.inFunction = true then p' else q') := by
  intro c d r s hc hr hseen
  change z.Joins o ((if c.inFunction = true then p else q) c r)
    ((if d.inFunction = true then p' else q') d s)
  rw [← hc.inFunction]
  split
  · exact hp c d r s hc hr hseen
  · exact hq c d r s hc hr hseen

lemma loop {turn turn' : σ → Parser (Turn σ α)} (h : ∀ x, z.Join none o (turn x) (turn' x))
    (hpays : ∀ x, Pays none false k (turn' x)) (bound : Nat) (x : σ) :
    z.Join seen o (Parser.loop turn bound x) (Parser.loop turn' bound x) := by
  apply forget
  induction bound generalizing x with
  | zero => exact fun _ _ _ _ _ _ _ => .error
  | succ bound ih =>
    rw [Parser.loop, Parser.loop]
    refine (h x).bind (e := false) (k := k) ?_ ?_ (by simp)
    · intro next
      cases next with
      | again y => exact ih y
      | done a => exact pure a
    · intro next
      cases next with
      | again y => exact Pays.loop hpays bound y
      | done a => exact Pays.pure a

/-- At the edge a first run that has to consume a token is refused. -/
lemma cross (hend : t.kind = .endOfFile) (hp : Pays (some t) true k p) (hq : Pays (some u) e k q)
    (ho : o = true → e = true) : z.Join (some (t, u)) o p q := by
  intro c d r s hc hr hseen
  obtain ⟨rfl, rfl⟩ := Prod.mk.inj (hseen _ rfl)
  cases hr with
  | along h => exact absurd hend h.kind_ne
  | behind h =>
    have hpaid := hp c (by simp) h.first
    generalize p c r = x at hpaid
    cases hpaid with
    | ok hk => exact absurd hk (by simp)
    | tooDeep | refused | misspelt | unfinished =>
      refine .of_paid (fun hz => hq d (by simp) (h.second hz)) ?_
      cases o with
      | false => simp
      | true => simp [ho rfl]

lemma declares (hend : t.kind ≠ .endOfFile) :
    z.Join (some (t, u)) o declaresFunction declaresFunction := by
  intro c d r s hc hr hseen
  obtain ⟨rfl, rfl⟩ := Prod.mk.inj (hseen _ rfl)
  have halong := hr.along_of_ne hend
  have hheads := halong.next
  rw [declaresFunction_run, declaresFunction_run, Made.kind_eq halong.lexeme]
  generalize r.cursor.next = x at hheads
  generalize s.cursor.next = y at hheads
  cases hheads with
  | fault => exact .error
  | @token next next' after after' hnext =>
    have hname : (next.kind == .identifier) = (next'.kind == .identifier) := hnext.kind_beq rfl
    by_cases hasync : s.lookahead.kind = .kwAsync
    · simp only [if_pos hasync]
      have hword : next.kind = .kwFunction ∨ next.kind = .kwFunctionStar ↔
          next'.kind = .kwFunction ∨ next'.kind = .kwFunctionStar :=
        or_congr (hnext.kind_iff rfl) (hnext.kind_iff rfl)
      by_cases hfound : next.kind = .kwFunction ∨ next.kind = .kwFunctionStar
      · simp only [if_pos hfound, if_pos (hword.1 hfound)]
        have hne : next.kind ≠ .endOfFile := by
          rcases hfound with h | h <;> simp [h]
        have hheads := (hnext.along_of_ne hne).next
        simp only at hheads
        generalize after.next = x at hheads
        generalize after'.next = y at hheads
        cases hheads with
        | fault => exact .error
        | @token name name' last last' hlast =>
          have hname : (name.kind == .identifier) = (name'.kind == .identifier) :=
            hlast.kind_beq rfl
          simp only [hname]
          exact .ok hr
      · simp only [if_neg hfound, if_neg (hword.not.1 hfound)]
        exact .ok hr
    · simp only [if_neg hasync]
      rw [hname]
      exact .ok hr

/-- Behind a modifier the second run may find that it is a name. -/
lemma modifier {kind : Kind} {ends : Kind → Bool} {f f' : Bool → Parser α}
    (hkind : kind.isKeyword = true) (hends : ends .endOfFile = false)
    (hf : ∀ a, z.Join none false (f a) (f' a)) (hp : ∀ a, Pays none true k (f a))
    (hq : ∀ a, Pays none true k (f' a)) :
    z.Join seen false (acceptUnless kind ends >>= f) (acceptUnless kind ends >>= f') := by
  intro c d r s hc hr hseen
  have hne := Kind.ne_endOfFile_of_isKeyword hkind
  -- the second run from a place with few tokens ahead
  have hsecond : ∀ {i m}, (z.tail = [] → Ahead m s) → m ≤ 2 →
      z.Joins false (.error i) ((acceptUnless kind ends >>= f') d s) := by
    intro i m hahead hm
    have hpays : Pays none true k (acceptUnless kind ends >>= f') := by
      apply Pays.mono _ (fun _ => rfl) (Nat.le_refl _)
      exact (Pays.acceptUnless kind ends hne).seq hq
    exact .of_paid (fun hz => hpays d (by simp) (hahead hz)) (by simpa using hm)
  cases hr with
  | behind h =>
    have hfirst : ∃ i, (acceptUnless kind ends >>= f) c r = .error i := by
      have hpays : Pays none true k (acceptUnless kind ends >>= f) := by
        apply Pays.mono _ (fun _ => rfl) (Nat.le_refl _)
        exact (Pays.acceptUnless kind ends hne).seq hp
      exact hpays.error_of_end h.first
    obtain ⟨i, hi⟩ := hfirst
    rw [hi]
    exact hsecond h.second (by decide)
  | along h =>
    have hheads := h.next
    simp only [Bind.bind, acceptUnless_run] at hsecond ⊢
    by_cases hfound : r.lookahead.kind = kind
    · have hfound' : s.lookahead.kind = kind := Made.kind_eq h.lexeme ▸ hfound
      simp only [if_pos hfound, if_pos hfound'] at hsecond ⊢
      rcases hx : r.cursor.next with ⟨e | next, after⟩ <;> rw [hx] at hheads
      · generalize s.cursor.next = y at hheads ⊢
        cases hheads
        exact .error
      obtain ⟨next', after', hy, hnext⟩ := hheads.second
      simp only [hy] at hsecond ⊢
      cases hnext with
      | along hnext =>
        have hsame : next.kind = next'.kind := Made.kind_eq hnext.lexeme
        simp only [hsame]
        by_cases hname : ends next'.kind = true
        · simp only [if_pos hname]
          exact hf false c d r s hc (.along h) (by simp)
        · simp only [if_neg hname]
          exact hf true c d _ _ hc (.along hnext) (by simp)
      | behind hnext =>
        obtain ⟨i, hi⟩ := (hp true).error_of_end (c := c) hnext.first
        have hgoes : ¬ends next.kind = true := by
          rw [show next.kind = .endOfFile from hnext.kind, hends]
          decide
        simp only [if_neg hgoes, hi]
        refine hsecond (m := 2) (fun hz => ⟨?_, ?_⟩) (Nat.le_refl _)
        · intro token last hlast
          cases hy.symm.trans hlast
          exact hnext.second hz
        · intro hopens
          rw [hfound', Kind.opensText_of_isKeyword hkind] at hopens
          cases hopens
    · have hfound' : ¬s.lookahead.kind = kind := Made.kind_eq h.lexeme ▸ hfound
      simp only [if_neg hfound, if_neg hfound']
      exact hf false c d r s hc (.along h) (by simp)

/-- Both runs look for a token of a kind that is not one of the edge. -/
lemma expect {kind : Kind} {f f' : Token → Parser α} (hkind : kind.isEdge = false)
    (hf : ∀ t u, t.lexeme = u.lexeme → z.Join none o (f t) (f' u)) :
    z.Join seen o (Parser.expect kind >>= f) (Parser.expect kind >>= f') := by
  rw [expect_bind_eq, expect_bind_eq]
  intro c d r s hc hr _
  change z.Joins o
    ((if (r.lookahead.kind == kind) = true then advance >>= f else _ : Parser α) c r)
    ((if (s.lookahead.kind == kind) = true then advance >>= f' else _ : Parser α) d s)
  rw [← hr.kind_beq hkind]
  split
  next hfound =>
    have hend : r.lookahead.kind ≠ .endOfFile := by
      rw [beq_iff_eq.1 hfound]
      rintro rfl
      cases hkind
    have hlexeme := (hr.along_of_ne hend).lexeme
    exact take hend (hf _ _ hlexeme) c d r s hc hr (by simp)
  next => exact .error

/-- Template text behind a token that both runs look for. -/
lemma expectInTemplate {kind : Kind} (hkind : kind.opensText = true)
    (hp : ∀ c d r s, c.Alike d → z.Along r s ∨ z.Overruns r s → z.Joins o (p c r) (q d s))
    (hq : Pays none false 2 q) :
    z.Join seen o (Parser.expectInTemplate kind >>= fun _ => p)
      (Parser.expectInTemplate kind >>= fun _ => q) := by
  intro c d r s hc hr _
  cases hr with
  | along h =>
    rw [expectInTemplate_bind_eq, expectInTemplate_bind_eq]
    change z.Joins o
      ((if (r.lookahead.kind == kind) = true then advanceInTemplate >>= fun _ => p else _ :
        Parser α) c r)
      ((if (s.lookahead.kind == kind) = true then advanceInTemplate >>= fun _ => q else _ :
        Parser α) d s)
    rw [Made.kind_eq h.lexeme]
    split
    next => exact hp c d _ _ hc (nextTemplate_append h.rest h.suits)
    next => exact .error
  | behind h =>
    have hpays : Pays none true 2 (Parser.expectInTemplate kind >>= fun _ => q) :=
      Pays.expectInTemplate hkind fun _ => hq
    have hne : ¬r.lookahead.kind = kind := by
      rw [h.kind]
      rintro rfl
      cases hkind
    have hfirst : ∃ i, (Parser.expectInTemplate kind >>= fun _ => p) c r = .error i := by
      rw [expectInTemplate_bind_eq]
      rw [sees_of_ne hne]
      exact ⟨_, rfl⟩
    obtain ⟨i, hi⟩ := hfirst
    rw [hi]
    exact .of_paid (fun hz => hpays d (by simp) (h.second hz)) (Nat.le_add_right 1 _)

end Join

end Closer

section Templates

variable {g : Grammar} {c : Context} {r : Reading} (bound : Nat) (parts : TemplateParts)

/-- The loop over the parts of a template in front of text. -/
lemma templateLoop_text (h : r.lookahead.kind = .templateString) :
    loop g.templatePart (bound + 1) parts c r =
      loop g.templatePart bound (parts.addText r.lookahead.text) c
        ⟨r.cursor.nextTemplate.1, r.cursor.nextTemplate.2⟩ := by
  have hpart : g.templatePart parts c r =
      (advanceInTemplate >>= fun token => pure (.again (parts.addText token.text))) c r := by
    simp only [Grammar.templatePart, Bind.bind, lookahead, h]
  rw [loop, bind_congr_run hpart]
  rfl

lemma templateLoop_insertion (h : r.lookahead.kind = .dollarBrace) :
    loop g.templatePart (bound + 1) parts c r =
      (advance >>= fun token => expect .lBrace >>= fun _ => g.parse .sequence >>= fun expression =>
        expectInTemplate .rBrace >>= fun _ =>
          loop g.templatePart bound ((parts.addText token.text).addExpression expression)) c r := by
  have hpart : g.templatePart parts c r =
      (advance >>= fun token => expect .lBrace >>= fun _ => g.parse .sequence >>= fun expression =>
        expectInTemplate .rBrace >>= fun _ =>
          pure (.again ((parts.addText token.text).addExpression expression))) c r := by
    simp only [Grammar.templatePart, Bind.bind, lookahead, h]
  rw [loop, bind_congr_run hpart]
  simp only [bind_assoc, pure_bind]

lemma templateLoop_end (h : r.lookahead.kind = .backtick) :
    loop g.templatePart (bound + 1) parts c r = (advance >>= fun _ => pure parts.toNode) c r := by
  have hpart : g.templatePart parts c r = (advance >>= fun _ => pure (.done parts.toNode)) c r := by
    simp only [Grammar.templatePart, Bind.bind, lookahead, h]
  rw [loop, bind_congr_run hpart]
  simp only [bind_assoc, pure_bind]

/-- No other token stands in front of a part of a template. -/
lemma templateLoop_refused (htext : r.lookahead.kind ≠ .templateString)
    (hinsertion : r.lookahead.kind ≠ .dollarBrace) (hend : r.lookahead.kind ≠ .backtick) :
    loop g.templatePart (bound + 1) parts c r =
      .error (.rejected (.tokenMismatch .backtick r.lookahead.kind r.lookahead.span)) := by
  have hpart : g.templatePart parts c r =
      (mismatch .backtick : Parser (Turn TemplateParts Node)) c r := by
    simp only [Grammar.templatePart, Bind.bind, lookahead]
  rw [loop, bind_congr_run hpart]
  rfl

lemma templateLoop_of_eof (h : r.lookahead.kind = .endOfFile) :
    ∃ i, loop g.templatePart bound parts c r = .error i := by
  cases bound with
  | zero => exact ⟨_, rfl⟩
  | succ bound =>
    exact ⟨_, templateLoop_refused bound parts (by simp [h]) (by simp [h]) (by simp [h])⟩

/-- A template whose text runs to the end of the source is refused. -/
lemma templateLoop_of_text (h : r.lookahead.kind = .templateString)
    (hrest : r.cursor.rest = []) : ∃ i, loop g.templatePart bound parts c r = .error i := by
  cases bound with
  | zero => exact ⟨_, rfl⟩
  | succ bound =>
    rw [templateLoop_text bound parts h, Cursor.nextTemplate_of_nil hrest]
    exact templateLoop_of_eof bound _ rfl

end Templates

namespace Closer

variable {z : Closer} {r s : Reading} {c d : Context}

section Grammars

variable {g : Grammar} (hjoin : ∀ goal, z.Join none true (g.parse goal) (g.parse goal))
  (hpays : ∀ goal, Pays none true goal.levels (g.parse goal))

include hjoin hpays

omit hjoin hpays in
lemma templateLoop_overruns {o : Bool} (bound : Nat) (parts : TemplateParts)
    (h : z.Overruns r s) :
    z.Joins o (loop g.templatePart bound parts c r) (loop g.templatePart bound parts d s) := by
  have hfirst : ∃ i, loop g.templatePart bound parts c r = .error i := by
    rcases h.kind with hkind | hkind
    · exact templateLoop_of_eof bound parts hkind
    · exact templateLoop_of_text bound parts hkind h.rest
  obtain ⟨i, hi⟩ := hfirst
  rw [hi]
  rcases hrun : loop g.templatePart bound parts d s with j | ⟨a, s'⟩
  · exact .error
  · refine .past fun hz => ?_
    have hpass : z.Passable := by
      rw [Closer.Passable, hz]
      rfl
    obtain ⟨j, hj⟩ := templateLoop_of_text (g := g) (c := d) bound parts (h.second hpass).1
      (h.second hpass).2
    rw [hj] at hrun
    cases hrun

lemma templateLoop_joins (bound : Nat) (parts : TemplateParts) (hc : c.Alike d)
    (hr : z.Along r s ∨ z.Overruns r s) :
    z.Joins true (loop g.templatePart bound parts c r) (loop g.templatePart bound parts d s) := by
  induction bound generalizing parts c d r s with
  | zero => exact .error
  | succ bound ih =>
    rcases hr with hr | hr
    · have hkind := Made.kind_eq hr.lexeme
      by_cases htext : r.lookahead.kind = .templateString
      · rw [templateLoop_text bound parts htext, templateLoop_text bound parts (hkind ▸ htext),
          Made.text_eq hr.lexeme]
        exact ih _ hc (nextTemplate_append hr.rest hr.suits)
      by_cases hinsertion : r.lookahead.kind = .dollarBrace
      · rw [templateLoop_insertion bound parts hinsertion,
          templateLoop_insertion bound parts (hkind ▸ hinsertion)]
        have hclose : ∀ parts, z.Join none true
            (expectInTemplate .rBrace >>= fun _ => loop g.templatePart bound parts)
            (expectInTemplate .rBrace >>= fun _ => loop g.templatePart bound parts) := by
          intro parts
          refine Join.expectInTemplate rfl (fun c d r s hc hr => ih parts hc hr) ?_
          exact templateLoop_pays hpays bound parts
        refine Join.take (u := s.lookahead) hr.kind_ne (Join.expect rfl fun _ _ _ => ?_) c d r s hc
          (.along hr) (by simp)
        rw [Made.text_eq hr.lexeme]
        exact (hjoin .sequence).bind (e := false) (k := 2) (fun e => hclose _)
          (fun e => closing_pays hpays bound _) (by simp)
      by_cases hend : r.lookahead.kind = .backtick
      · rw [templateLoop_end bound parts hend, templateLoop_end bound parts (hkind ▸ hend)]
        exact Join.take (u := s.lookahead) hr.kind_ne (.pure _) c d r s hc (.along hr) (by simp)
      · rw [templateLoop_refused bound parts htext hinsertion hend, hkind,
          templateLoop_refused bound parts (hkind ▸ htext) (hkind ▸ hinsertion) (hkind ▸ hend)]
        exact .error
    · exact templateLoop_overruns _ _ hr

lemma templateLiteral_join : z.Join none true g.templateLiteral g.templateLiteral := by
  unfold Grammar.templateLiteral
  refine Join.expectInTemplate rfl (fun c d r s hc hr => ?_) ?_
  · exact templateLoop_joins hjoin hpays _ _ hc hr
  · exact templateLoop_pays hpays _ _

/-- All that is made in the ways of the grammar comes to the same in front of a closing bracket. -/
theorem made_join {α : Type} {seen : Option (Token × Token)} {x : Traits} {p q : Parser α}
    (h : Made g seen x p q) (hseen : ∀ tu ∈ seen, Faces tu.1 tu.2) :
    z.Join seen x.outer p q := by
  induction h with
  | pure a => exact .pure a
  | reject => exact .reject
  | look h ih =>
    apply Join.look
    intro t u hfaces hknown
    exact ih t u hfaces hknown (by simpa using hfaces)
  | take hsame hend h ih => exact .take hend (ih (by simp))
  | lookUp hsame htable h ih => exact .lookUp hsame htable fun a => ih a (by simp)
  | after hp hf ihp ihf =>
    exact (ihp hseen).bind (e := false) (fun a => ihf a (by simp))
      (fun a => ((hf a).pays hpays (by simp)).2) (by simp)
  | seq hp hf ihp ihf =>
    exact (ihp hseen).bind (fun a => ihf a (by simp))
      (fun a => ((hf a).pays hpays (by simp)).2) (by simp)
  | closing hp hf ihp ihf =>
    refine (ihp hseen).bind (e := true) (fun a => ?_) (fun a => ((hf a).pays hpays (by simp)).2)
      (by simp)
    exact fun c d r s hc hr hs => (ihf a (by simp) c d r s hc hr hs).weaken
  | nested hk h ih => exact (ih hseen).nested
  | inFunction h ih => exact (ih hseen).inFunction
  | guarded hp hq ihp ihq => exact (ihp hseen).guarded (ihq hseen)
  | loop bound y h ih =>
    exact .loop (fun y => ih y (by simp)) (fun y => ((h y).pays hpays (by simp)).2) bound y
  | goal goal hk hd => exact fun c d r s hc hr _ => (hjoin goal c d r s hc hr (by simp)).weaken
  | template =>
    exact fun c d r s hc hr _ =>
      (templateLiteral_join hjoin hpays c d r s hc hr (by simp)).weaken
  | declares hsame hend => exact .declares hend
  | modifier hkind hends hf ih =>
    exact .modifier hkind hends (fun a => ih a (by simp))
      (fun a => ((hf a).pays hpays (by simp)).1) (fun a => ((hf a).pays hpays (by simp)).2)
  | cross ht hu hp hq hb hz ihp ihq =>
    have hfirst := (hp.pays hpays (by simpa using Faces.refl _)).1
    have hsecond := (hq.pays hpays (by simpa using Faces.refl _)).2
    exact .cross ht hfirst hsecond hz

end Grammars

/-- Every construct comes to the same in front of a closing bracket, unless it goes on over it. -/
theorem run_join (levels : Nat) (goal : Goal) :
    z.Join none true (Grammar.run levels goal) (Grammar.run levels goal) := by
  induction levels generalizing goal with
  | zero => exact fun _ _ _ _ _ _ _ => .error
  | succ levels ih =>
    have hmade : Made ⟨levels, Grammar.run levels⟩ none ⟨true, goal.levels, false, true⟩ _ _ :=
      Made.production_made goal (Nat.le_refl _) (by simp)
    exact made_join ih (Grammar.run_pays levels) hmade (by simp)

end Closer

end ScriptTree
