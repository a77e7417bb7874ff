import ScriptTree.Proofs.Reading

/-!
# Two runs of the grammar in step

The grammar looks at the kinds and the texts of tokens and only passes their spans on. So two runs
stay in step as long as their readings correspond, whatever else is different: the source, the
limit, the number of levels. A `Lockstep` says what corresponds and why single readings keep it.
This file has one rule for each way in which the grammar's parsers are put together.
-/

namespace ScriptTree

open ScriptTree.Parser

/-- What the next tokens of two readings have to do with each other. -/
inductive NextAgrees (reading : Nat → Reading → Reading → Prop)
    (fault : SyntaxError → SyntaxError → Prop) (m : Nat) :
    Except SyntaxError Token × Cursor → Except SyntaxError Token × Cursor → Prop where
  | token {k : Nat} {t u : Token} {a b : Cursor} (hk : k < m) (h : reading k ⟨t, a⟩ ⟨u, b⟩) :
      NextAgrees reading fault m (.ok t, a) (.ok u, b)
  | fault {e f : SyntaxError} {a b : Cursor} (h : fault e f) :
      NextAgrees reading fault m (.error e, a) (.error f, b)

/-- What two readings in front of a piece of a template have to do with each other: both are in front
of the same text, with a further piece or an insertion behind it, or in front of a token as elsewhere
in the source. -/
inductive PieceAgrees (reading piece : Nat → Reading → Reading → Prop)
    (fault : SyntaxError → SyntaxError → Prop) (m : Nat) (r s : Reading) : Prop where
  | text {k : Nat} (hlexeme : r.lookahead.lexeme = s.lookahead.lexeme)
      (hkind : r.lookahead.kind = .templateString) (hk : k < m)
      (h : piece k ⟨r.cursor.nextTemplate.1, r.cursor.nextTemplate.2⟩
        ⟨s.cursor.nextTemplate.1, s.cursor.nextTemplate.2⟩)
  | insertion (hlexeme : r.lookahead.lexeme = s.lookahead.lexeme)
      (hkind : r.lookahead.kind = .dollarBrace)
      (h : NextAgrees reading fault m r.cursor.next s.cursor.next)
  | token (h : reading m r s)

/-- The faults about which the grammar says no more than where they are. -/
inductive SyntaxError.Located : (Span → SyntaxError) → Prop where
  | returnOutsideFunction : Located .returnOutsideFunction
  | invalidAssignmentTarget : Located .invalidAssignmentTarget
  | invalidParameters : Located .invalidParameters
  | invalidAsync : Located .invalidAsync
  | invalidClassMember : Located .invalidClassMember
  | missingHandler : Located .missingHandler
  | invalidRegexFlag (flag : Char) : Located (.invalidRegexFlag flag)

/-- What corresponds in two runs of the grammar. -/
structure Lockstep where
  /-- Readings at the same stage, with a number that falls whenever a token is consumed. -/
  reading : Nat → Reading → Reading → Prop
  /-- Readings at the same stage in front of a piece of a template. -/
  piece : Nat → Reading → Reading → Prop
  context : Context → Context → Prop
  token : Token → Token → Prop
  span : Span → Span → Prop
  fault : SyntaxError → SyntaxError → Prop
  /-- Faults of the first run after which nothing is said about the second one. -/
  excused : SyntaxError → Prop
  /-- Whether templates may be read. -/
  templates : Prop
  lookahead : ∀ {m r s}, reading m r s → token r.lookahead s.lookahead
  kind_eq : ∀ {t u}, token t u → t.kind = u.kind
  text_eq : ∀ {t u}, token t u → t.text = u.text
  span_token : ∀ {t u}, token t u → span t.span u.span
  span_merge : ∀ {a b a' b'}, span a b → span a' b' → span (a.merge a') (b.merge b')
  next : ∀ {m r s}, reading m r s → r.lookahead.kind ≠ .endOfFile →
    NextAgrees reading fault m r.cursor.next s.cursor.next
  backtick : ∀ {m r s}, reading m r s → r.lookahead.kind = .backtick → templates
  nextTemplate : ∀ {m r s}, templates → reading m r s → r.lookahead.kind ≠ .endOfFile →
    ∃ k < m, piece k ⟨r.cursor.nextTemplate.1, r.cursor.nextTemplate.2⟩
      ⟨s.cursor.nextTemplate.1, s.cursor.nextTemplate.2⟩
  pieces : ∀ {m r s}, piece m r s → PieceAgrees reading piece fault m r s
  mismatch : ∀ {t u kind}, token t u → kind ≠ t.kind →
    fault (.tokenMismatch kind t.kind t.span) (.tokenMismatch kind u.kind u.span)
  unexpected : ∀ {t u}, token t u →
    fault (.unexpectedToken t.kind t.span) (.unexpectedToken u.kind u.span)
  located : ∀ {make a b}, SyntaxError.Located make → span a b → fault (make a) (make b)
  inFunction : ∀ {c d}, context c d →
    context { c with inFunction := true } { d with inFunction := true }
  mayReturn : ∀ {c d a}, context c d → c.inFunction = d.inFunction ∨
    c.inFunction = false ∧ excused (.returnOutsideFunction a)
  deeper : ∀ {c d m r s}, context c d → reading m r s →
    (c.limit ≤ c.depth ∧ d.limit ≤ d.depth ∧
      fault (.nestingTooDeep c.limit r.lookahead.span) (.nestingTooDeep d.limit s.lookahead.span)) ∨
    (c.limit ≤ c.depth ∧ excused (.nestingTooDeep c.limit r.lookahead.span)) ∨
    (c.depth < c.limit ∧ d.depth < d.limit ∧
      context { c with depth := c.depth + 1 } { d with depth := d.depth + 1 })

namespace Lockstep

variable {L : Lockstep} {α β γ δ σ : Type} {n m k : Nat} {c d : Context} {r s : Reading}
  {g h : Grammar}

/-- The outcomes of two runs: results for which a condition holds, or corresponding faults. Neither
run is left unfinished. -/
inductive Outcome (L : Lockstep) (post : α → Reading → β → Reading → Prop) :
    Except Interrupt (α × Reading) → Except Interrupt (β × Reading) → Prop where
  | ok {a : α} {b : β} {r s : Reading} (h : post a r b s) : Outcome L post (.ok (a, r)) (.ok (b, s))
  | fault {e f : SyntaxError} (h : L.fault e f) :
      Outcome L post (.error (.rejected e)) (.error (.rejected f))
  | misspelt {t u : Token} (h : L.token t u) :
      Outcome L post (.error (.misspelt t)) (.error (.misspelt u))
  | excused {e : SyntaxError} {x : Except Interrupt (β × Reading)} (h : L.excused e) :
      Outcome L post (.error (.rejected e)) x

/-- Two parsers, started at given readings, have outcomes with a condition on their results. -/
def Agree (L : Lockstep) (post : α → Reading → β → Reading → Prop) (c : Context) (r : Reading)
    (d : Context) (s : Reading) (p : Parser α) (q : Parser β) : Prop :=
  L.Outcome post (p c r) (q d s)

/-- Two runs stand at the same stage, with at most `n` steps of a loop ahead of them. -/
structure Stage (L : Lockstep) (n m : Nat) (c : Context) (r : Reading) (d : Context)
    (s : Reading) : Prop where
  bound : m ≤ n
  context : L.context c d
  reading : L.reading m r s

/-- Results that correspond, with readings below a stage. -/
def Below (L : Lockstep) (m : Nat) (value : α → β → Prop) (a : α) (r : Reading) (b : β)
    (s : Reading) : Prop :=
  value a b ∧ ∃ k < m, L.reading k r s

/-- Two parsers that consume a token at least and have corresponding results. -/
def Reads (L : Lockstep) (n m : Nat) (value : α → β → Prop) (p : Parser α) (q : Parser β) : Prop :=
  ∀ ⦃c r d s⦄, L.Stage n m c r d s → L.Agree (L.Below m value) c r d s p q

/-- Two parsers that have corresponding results and may consume nothing. -/
def Tries (L : Lockstep) (n m : Nat) (value : α → β → Prop) (p : Parser α) (q : Parser β) : Prop :=
  ∀ ⦃c r d s⦄, L.Stage n m c r d s → L.Agree (L.Below (m + 1) value) c r d s p q

lemma Stage.kind_eq (st : L.Stage n m c r d s) : r.lookahead.kind = s.lookahead.kind :=
  L.kind_eq (L.lookahead st.reading)

lemma Stage.text_eq (st : L.Stage n m c r d s) : r.lookahead.text = s.lookahead.text :=
  L.text_eq (L.lookahead st.reading)

lemma Stage.span (st : L.Stage n m c r d s) : L.span r.lookahead.span s.lookahead.span :=
  L.span_token (L.lookahead st.reading)

lemma Stage.below (st : L.Stage n m c r d s) {r' s' : Reading} (hk : k < m)
    (hr : L.reading k r' s') : L.Stage n k c r' d s' :=
  ⟨Nat.le_trans (Nat.le_of_lt hk) st.bound, st.context, hr⟩

section Rules

variable {post : α → Reading → β → Reading → Prop} {post' : γ → Reading → δ → Reading → Prop}
  {value : γ → δ → Prop} {kind : Kind}

lemma Agree.bind {p : Parser γ} {q : Parser δ} {f : γ → Parser α} {f' : δ → Parser β}
    (hp : L.Agree post' c r d s p q)
    (hf : ∀ a r' b s', post' a r' b s' → L.Agree post c r' d s' (f a) (f' b)) :
    L.Agree post c r d s (p >>= f) (q >>= f') := by
  unfold Agree at hp ⊢
  simp only [Bind.bind]
  generalize p c r = x at hp
  generalize q d s = y at hp
  cases hp with
  | ok h => exact hf _ _ _ _ h
  | fault h => exact Outcome.fault h
  | misspelt h => exact Outcome.misspelt h
  | excused h => exact Outcome.excused h

lemma Agree.mono {p : Parser α} {q : Parser β} {wide : α → Reading → β → Reading → Prop}
    (hp : L.Agree post c r d s p q) (h : ∀ a r' b s', post a r' b s' → wide a r' b s') :
    L.Agree wide c r d s p q := by
  unfold Agree at hp ⊢
  generalize p c r = x at hp
  generalize q d s = y at hp
  cases hp with
  | ok hpost => exact Outcome.ok (h _ _ _ _ hpost)
  | fault h => exact Outcome.fault h
  | misspelt h => exact Outcome.misspelt h
  | excused h => exact Outcome.excused h

lemma Agree.reject {e f : SyntaxError} (h : L.fault e f) :
    L.Agree post c r d s (Parser.reject e) (Parser.reject f) :=
  Outcome.fault h

lemma Agree.lookahead_bind {f : Token → Parser α} {f' : Token → Parser β}
    (h : L.Agree post c r d s (f r.lookahead) (f' s.lookahead)) :
    L.Agree post c r d s (Parser.lookahead >>= f) (Parser.lookahead >>= f') := h

lemma Agree.place_bind {f : Cursor → Parser α} {f' : Cursor → Parser β}
    (h : L.Agree post c r d s (f r.cursor) (f' s.cursor)) :
    L.Agree post c r d s (place >>= f) (place >>= f') := h

/-- A result at the stage reached is one below any later stage. -/
lemma Stage.pure (st : L.Stage n k c r d s) (a : α) (hk : k < m) :
    L.Agree (L.Below m Eq) c r d s (Pure.pure a) (Pure.pure a) :=
  Outcome.ok ⟨rfl, k, hk, st.reading⟩

lemma Stage.unexpected (st : L.Stage n m c r d s) :
    L.Agree post c r d s Parser.unexpected Parser.unexpected :=
  Outcome.fault (L.unexpected (L.lookahead st.reading))

lemma Stage.mismatch (st : L.Stage n m c r d s) (h : kind ≠ r.lookahead.kind) :
    L.Agree post c r d s (Parser.mismatch kind) (Parser.mismatch kind) :=
  Outcome.fault (L.mismatch (L.lookahead st.reading) h)

lemma Stage.reject (st : L.Stage n m c r d s) {make : Span → SyntaxError}
    (h : SyntaxError.Located make) :
    L.Agree post c r d s (Parser.reject (make r.lookahead.span))
      (Parser.reject (make s.lookahead.span)) :=
  Outcome.fault (L.located h st.span)

/-- Both runs look at the same kind. -/
lemma Stage.sees_bind (st : L.Stage n m c r d s) {f : Bool → Parser α} {f' : Bool → Parser β}
    (hyes : r.lookahead.kind = kind → L.Agree post c r d s (f true) (f' true))
    (hno : r.lookahead.kind ≠ kind → L.Agree post c r d s (f false) (f' false)) :
    L.Agree post c r d s (sees kind >>= f) (sees kind >>= f') := by
  change L.Agree post c r d s (f (r.lookahead.kind == kind)) (f' (s.lookahead.kind == kind))
  rw [← st.kind_eq]
  by_cases hk : r.lookahead.kind = kind
  · have heq : (r.lookahead.kind == kind) = true := beq_iff_eq.2 hk
    rw [heq]
    exact hyes hk
  · have hne : (r.lookahead.kind == kind) = false := beq_eq_false_iff_ne.2 hk
    rw [hne]
    exact hno hk

lemma Stage.sees_ite (st : L.Stage n m c r d s) {p p' : Parser α} {q q' : Parser β}
    (hyes : r.lookahead.kind = kind → L.Agree post c r d s p q)
    (hno : r.lookahead.kind ≠ kind → L.Agree post c r d s p' q') :
    L.Agree post c r d s (sees kind >>= fun b => if b = true then p else p')
      (sees kind >>= fun b => if b = true then q else q') :=
  st.sees_bind hyes hno

/-- Both runs consume their tokens and go on with corresponding ones, or meet corresponding faults
behind them. -/
lemma Agree.advance_bind (hnext : NextAgrees L.reading L.fault m r.cursor.next s.cursor.next)
    {f : Token → Parser α} {f' : Token → Parser β}
    (hf : ∀ k r' s', k < m → L.reading k r' s' →
      L.Agree post c r' d s' (f r.lookahead) (f' s.lookahead)) :
    L.Agree post c r d s (advance >>= f) (advance >>= f') := by
  unfold Agree
  simp only [Bind.bind, advance]
  generalize r.cursor.next = x at hnext
  generalize s.cursor.next = y at hnext
  cases hnext with
  | token hk h => exact hf _ _ _ hk h
  | fault h => exact Outcome.fault h

lemma Stage.advance_bind (st : L.Stage n m c r d s) (hkind : r.lookahead.kind ≠ .endOfFile)
    {f : Token → Parser α} {f' : Token → Parser β}
    (hf : ∀ k r' s', k < m → L.Stage n k c r' d s' →
      L.Agree post c r' d s' (f r.lookahead) (f' s.lookahead)) :
    L.Agree post c r d s (advance >>= f) (advance >>= f') :=
  Agree.advance_bind (L.next st.reading hkind) fun k r' s' hk h => hf k r' s' hk (st.below hk h)

/-- The token at a place that a corresponding reading has reached. -/
lemma Agree.tokenAt_bind {x y : Reading} (hxy : L.reading k x y)
    (hkind : x.lookahead.kind ≠ .endOfFile) {f : Token × Cursor → Parser α}
    {f' : Token × Cursor → Parser β}
    (hf : ∀ t a u b l, L.reading l ⟨t, a⟩ ⟨u, b⟩ → L.Agree post c r d s (f (t, a)) (f' (u, b))) :
    L.Agree post c r d s (tokenAt x.cursor >>= f) (tokenAt y.cursor >>= f') := by
  have hnext := L.next hxy hkind
  unfold tokenAt
  generalize x.cursor.next = a at hnext
  generalize y.cursor.next = b at hnext
  cases hnext with
  | token _ h => exact hf _ _ _ _ _ h
  | fault h => exact Outcome.fault h

lemma Stage.expect_bind (st : L.Stage n m c r d s) {f : Token → Parser α} {f' : Token → Parser β}
    (hkind : (kind == .endOfFile) = false)
    (hf : ∀ t u k r' s', L.token t u → k < m → L.Stage n k c r' d s' →
      L.Agree post c r' d s' (f t) (f' u)) :
    L.Agree post c r d s (expect kind >>= f) (expect kind >>= f') := by
  unfold expect
  rw [bind_assoc, bind_assoc]
  refine st.sees_bind (fun hk => ?_) (fun hk => ?_)
  · refine st.advance_bind (hk ▸ ne_of_beq_false hkind) fun k r' s' hlt st' => ?_
    exact hf _ _ k r' s' (L.lookahead st.reading) hlt st'
  · exact (st.mismatch (Ne.symm hk)).bind fun _ _ _ _ h => False.elim h

/-- An expected token of which only the kind matters. -/
lemma Stage.expect_skip (st : L.Stage n m c r d s) {p : Parser α} {q : Parser β}
    (hkind : (kind == .endOfFile) = false)
    (hf : ∀ k r' s', k < m → L.Stage n k c r' d s' → L.Agree post c r' d s' p q) :
    L.Agree post c r d s (expect kind >>= fun _ => p) (expect kind >>= fun _ => q) :=
  st.expect_bind hkind fun _ _ k r' s' _ hk st' => hf k r' s' hk st'

/-- An expected token with a piece of a template behind it. -/
lemma Stage.expectInTemplate_skip (st : L.Stage n m c r d s)
    (hkind : (kind == .endOfFile) = false) (ht : r.lookahead.kind = kind → L.templates)
    {p : Parser α} {q : Parser β}
    (hf : L.templates → ∀ k r' s', k < m → L.piece k r' s' → L.Agree post c r' d s' p q) :
    L.Agree post c r d s (expectInTemplate kind >>= fun _ => p)
      (expectInTemplate kind >>= fun _ => q) := by
  unfold expectInTemplate
  rw [bind_assoc, bind_assoc]
  refine st.sees_bind (fun hk => ?_) (fun hk => ?_)
  · obtain ⟨k, hlt, hpiece⟩ := L.nextTemplate (ht hk) st.reading (hk ▸ ne_of_beq_false hkind)
    exact hf (ht hk) k _ _ hlt hpiece
  · exact (st.mismatch (Ne.symm hk)).bind fun _ _ _ _ h => False.elim h

lemma Stage.accept_bind (st : L.Stage n m c r d s) {f : Bool → Parser α} {f' : Bool → Parser β}
    (hkind : (kind == .endOfFile) = false)
    (hyes : ∀ k r' s', k < m → L.Stage n k c r' d s' →
      L.Agree post c r' d s' (f true) (f' true))
    (hno : r.lookahead.kind ≠ kind → L.Agree post c r d s (f false) (f' false)) :
    L.Agree post c r d s (accept kind >>= f) (accept kind >>= f') := by
  unfold accept
  rw [bind_assoc, bind_assoc]
  refine st.sees_bind (fun hk => ?_) (fun hk => ?_)
  · change L.Agree post c r d s ((advance >>= fun _ => Pure.pure true) >>= f)
      ((advance >>= fun _ => Pure.pure true) >>= f')
    rw [bind_assoc, bind_assoc]
    exact st.advance_bind (hk ▸ ne_of_beq_false hkind) hyes
  · exact hno hk

lemma Stage.accept_ite (st : L.Stage n m c r d s) {p p' : Parser α} {q q' : Parser β}
    (hkind : (kind == .endOfFile) = false)
    (hyes : ∀ k r' s', k < m → L.Stage n k c r' d s' → L.Agree post c r' d s' p q)
    (hno : r.lookahead.kind ≠ kind → L.Agree post c r d s p' q') :
    L.Agree post c r d s (accept kind >>= fun b => if b = true then p else p')
      (accept kind >>= fun b => if b = true then q else q') :=
  st.accept_bind hkind hyes hno

lemma accept_tries (hkind : (kind == .endOfFile) = false) :
    L.Tries n m Eq (accept kind) (accept kind) := by
  intro c r d s st
  rw [← bind_pure (accept kind)]
  refine st.accept_bind hkind (fun k r' s' hk st' => ?_) fun _ => ?_
  · exact st'.pure _ (Nat.lt_succ_of_lt hk)
  · exact st.pure _ (Nat.lt_succ_self m)

lemma Agree.spelled_bind {t u : Token} (htu : L.token t u) (x : Option γ) {f : γ → Parser α}
    {f' : γ → Parser β} (hf : ∀ a, x = some a → L.Agree post c r d s (f a) (f' a)) :
    L.Agree post c r d s (spelled t x >>= f) (spelled u x >>= f') := by
  cases x with
  | none => exact Outcome.misspelt htu
  | some a => exact hf a rfl

lemma Reads.bind {p : Parser γ} {q : Parser δ} (hp : L.Reads n m value p q)
    (st : L.Stage n m c r d s) {f : γ → Parser α} {f' : δ → Parser β}
    (hf : ∀ a b k r' s', value a b → k < m → L.Stage n k c r' d s' →
      L.Agree post c r' d s' (f a) (f' b)) :
    L.Agree post c r d s (p >>= f) (q >>= f') := by
  refine (hp st).bind fun a r' b s' h => ?_
  obtain ⟨hvalue, k, hk, hr⟩ := h
  exact hf a b k r' s' hvalue hk (st.below hk hr)

/-- Both runs go on with the same result. -/
lemma Reads.bind_eq {p q : Parser γ} (hp : L.Reads n m Eq p q) (st : L.Stage n m c r d s)
    {f : γ → Parser α} {f' : γ → Parser β}
    (hf : ∀ a k r' s', k < m → L.Stage n k c r' d s' → L.Agree post c r' d s' (f a) (f' a)) :
    L.Agree post c r d s (p >>= f) (q >>= f') := by
  refine hp.bind st fun a b k r' s' hab hk st' => ?_
  subst hab
  exact hf a k r' s' hk st'

lemma Tries.bind_eq {p q : Parser γ} (hp : L.Tries n m Eq p q) (st : L.Stage n m c r d s)
    {f : γ → Parser α} {f' : γ → Parser β}
    (hf : ∀ a k r' s', k ≤ m → L.Stage n k c r' d s' → L.Agree post c r' d s' (f a) (f' a)) :
    L.Agree post c r d s (p >>= f) (q >>= f') := by
  refine (hp st).bind fun a r' b s' h => ?_
  obtain ⟨rfl, k, hk, hr⟩ := h
  have hkm := Nat.le_of_lt_succ hk
  exact hf a k r' s' hkm ⟨Nat.le_trans hkm st.bound, st.context, hr⟩

/-- A parser at the end of a construct. -/
lemma Reads.last {p : Parser γ} {q : Parser δ} (hp : L.Reads n k value p q)
    (st : L.Stage n k c r d s) (hk : k ≤ m) : L.Agree (L.Below m value) c r d s p q := by
  refine (hp st).mono fun a r' b s' h => ?_
  obtain ⟨hvalue, l, hl, hr⟩ := h
  exact ⟨hvalue, l, Nat.lt_of_lt_of_le hl hk, hr⟩

lemma Tries.last {p : Parser γ} {q : Parser δ} (hp : L.Tries n k value p q)
    (st : L.Stage n k c r d s) (hk : k < m) : L.Agree (L.Below m value) c r d s p q := by
  refine (hp st).mono fun a r' b s' h => ?_
  obtain ⟨hvalue, l, hl, hr⟩ := h
  exact ⟨hvalue, l, Nat.lt_of_le_of_lt (Nat.le_of_lt_succ hl) hk, hr⟩

lemma Reads.map_last {p q : Parser γ} (hp : L.Reads n k Eq p q) (f : γ → δ)
    (st : L.Stage n k c r d s) (hk : k ≤ m) :
    L.Agree (L.Below m Eq) c r d s (f <$> p) (f <$> q) := by
  rw [map_eq_pure_bind, map_eq_pure_bind]
  exact hp.bind_eq st fun a l r' s' hl st' => st'.pure _ (Nat.lt_of_lt_of_le hl hk)

/-- What stands behind a token is read below its stage. -/
lemma optionally_tries {p q : Parser γ} (hkind : (kind == .endOfFile) = false)
    (hp : ∀ {k}, k < m → L.Reads n k Eq p q) :
    L.Tries n m Eq (optionally kind p) (optionally kind q) := by
  intro c r d s st
  unfold optionally
  refine st.accept_ite hkind (fun k r' s' hk st' => ?_) fun _ => st.pure _ (Nat.lt_succ_self m)
  exact (hp hk).map_last some st' (Nat.le_of_lt (Nat.lt_succ_of_lt hk))

lemma Reads.nested {p : Parser γ} {q : Parser δ} (hp : L.Reads n m value p q) :
    L.Reads n m value (Parser.nested p) (Parser.nested q) := by
  intro c r d s st
  unfold Agree Parser.nested
  rcases L.deeper st.context st.reading with ⟨hc, hd, hfault⟩ | ⟨hc, hexcused⟩ | ⟨hc, hd, hdeep⟩
  · rw [if_pos hc, if_pos hd]
    exact Outcome.fault hfault
  · rw [if_pos hc]
    exact Outcome.excused hexcused
  · rw [if_neg (by omega), if_neg (by omega)]
    exact hp ⟨st.bound, hdeep, st.reading⟩

lemma Reads.inFunction {p : Parser γ} {q : Parser δ} (hp : L.Reads n m value p q) :
    L.Reads n m value (Parser.inFunction p) (Parser.inFunction q) := by
  intro c r d s st
  exact hp ⟨st.bound, L.inFunction st.context, st.reading⟩

end Rules

/-- The readings after a turn: below the stage in front of another turn, or behind the last one. -/
def AfterTurn (L : Lockstep) (front : Nat → Reading → Reading → Prop) (m : Nat) (x : Turn σ α)
    (r : Reading) (y : Turn σ α) (s : Reading) : Prop :=
  x = y ∧ ∃ k, match x with
    | .again _ => k < m ∧ front k r s
    | .done _ => k ≤ m ∧ L.reading k r s

/-- Two turns of loops that keep in step. -/
def Turns (L : Lockstep) (n m : Nat) (p q : Parser (Turn σ α)) : Prop :=
  ∀ ⦃c r d s⦄, L.Stage n m c r d s → L.Agree (L.AfterTurn L.reading m) c r d s p q

lemma Agree.again {front : Nat → Reading → Reading → Prop} (h : front k r s) (state : σ)
    (hk : k < m) :
    L.Agree (L.AfterTurn front m) c r d s (Pure.pure (.again state : Turn σ α))
      (Pure.pure (.again state : Turn σ α)) :=
  Outcome.ok ⟨rfl, k, hk, h⟩

lemma Agree.done {front : Nat → Reading → Reading → Prop} (h : L.reading k r s) (a : α)
    (hk : k ≤ m) :
    L.Agree (L.AfterTurn front m) c r d s (Pure.pure (.done a : Turn σ α))
      (Pure.pure (.done a : Turn σ α)) :=
  Outcome.ok ⟨rfl, k, hk, h⟩

lemma Stage.again (st : L.Stage n k c r d s) (state : σ) (hk : k < m) :
    L.Agree (L.AfterTurn L.reading m) c r d s (Pure.pure (.again state : Turn σ α))
      (Pure.pure (.again state : Turn σ α)) :=
  Agree.again st.reading state hk

lemma Stage.done (st : L.Stage n k c r d s) (a : α) (hk : k ≤ m) :
    L.Agree (L.AfterTurn L.reading m) c r d s (Pure.pure (.done a : Turn σ α))
      (Pure.pure (.done a : Turn σ α)) :=
  Agree.done st.reading a hk

/-- Loops keep in step, and end within their bounds because every further turn consumes a token. -/
theorem loop_agrees {front : Nat → Reading → Reading → Prop} {turn turn' : σ → Parser (Turn σ α)}
    (hturn : ∀ state {k r s}, k ≤ m → front k r s →
      L.Agree (L.AfterTurn front k) c r d s (turn state) (turn' state)) {bound bound' : Nat}
    (hb : m < bound) (hb' : m < bound') (state : σ) (h : front m r s) :
    L.Agree (L.Below (m + 1) Eq) c r d s (loop turn bound state) (loop turn' bound' state) := by
  induction bound generalizing bound' m state r s with
  | zero => omega
  | succ bound ih =>
    obtain ⟨bound', rfl⟩ := Nat.exists_eq_add_of_lt hb'
    unfold loop
    refine (hturn state (Nat.le_refl m) h).bind fun x r' y s' hafter => ?_
    obtain ⟨rfl, k, hafter⟩ := hafter
    cases x with
    | again state =>
      obtain ⟨hk, hfront⟩ := hafter
      have hloop := ih (fun state l r s hl => hturn state (by omega)) (by omega)
        (show k < m + bound' by omega) state hfront
      refine hloop.mono fun a r' b s' hbelow => ?_
      obtain ⟨hvalue, l, hl, hr⟩ := hbelow
      exact ⟨hvalue, l, by omega, hr⟩
    | done a =>
      obtain ⟨hk, hr⟩ := hafter
      exact Outcome.ok ⟨rfl, k, by omega, hr⟩

theorem loop_tries {turn turn' : σ → Parser (Turn σ α)}
    (hturn : ∀ state {k}, k ≤ m → L.Turns n k (turn state) (turn' state)) {bound bound' : Nat}
    (hb : m < bound) (hb' : m < bound') (state : σ) :
    L.Tries n m Eq (loop turn bound state) (loop turn' bound' state) := by
  intro c r d s st
  have hbound := st.bound
  refine loop_agrees (fun state k r s hk hr => ?_) hb hb' state st.reading
  exact hturn state hk ⟨by omega, st.context, hr⟩

/-- Grammars that keep in step on all constructs that are read below stage `n`. -/
structure Grammars (L : Lockstep) (n : Nat) (g h : Grammar) : Prop where
  left : n ≤ g.bound
  right : n ≤ h.bound
  parse : ∀ goal {m}, m < n → L.Reads n m Eq (g.parse goal) (h.parse goal)

end Lockstep

end ScriptTree
