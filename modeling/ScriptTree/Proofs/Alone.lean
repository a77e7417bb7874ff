import ScriptTree.Proofs.Reading

/-!
# Expressions without operators

Where nothing stands around a primary expression, every level of operators hands it on as it is. And
a name, an expression in parentheses or an arrow function that is a whole expression was handed on by
all of them.
-/

namespace ScriptTree

open ScriptTree.Parser

def Node.isParenthesized : Node → Bool
  | .parenthesizedExpression _ => true
  | _ => false

/-- The nodes that no operator makes, only a primary expression. -/
def Node.isBare : Node → Bool
  | .identifier _ | .parenthesizedExpression _ | .arrowFunctionExpression .. => true
  | _ => false

/-- Kinds that stand behind an operation and do not go on with it. -/
def Kind.endsOperation : Kind → Bool
  | endOfFile | comma | rParen | assignment => true
  | _ => false

/-- What an expression comes to, given what the primary expression in front of it comes to, which
nothing goes on with in front of some kinds of tokens. -/
structure Carries (stops : Kind → Bool) (x y : Except Interrupt (Node × Reading)) : Prop where
  error : ∀ i, x = .error i → y = .error i
  ends : ∀ n s, x = .ok (n, s) → stops s.lookahead.kind = true → y = .ok (n, s)
  keeps : ∀ n s, y = .ok (n, s) → n.isBare = true → x = .ok (n, s)

namespace Carries

variable {stops stops' : Kind → Bool} {x y z : Except Interrupt (Node × Reading)} {c : Context}
  {r : Reading} {p : Parser Node} {f : Node → Parser Node} {g : Grammar}

lemma refl (x : Except Interrupt (Node × Reading)) : Carries stops x x :=
  ⟨fun _ h => h, fun _ _ h _ => h, fun _ _ h _ => h⟩

lemma narrow (h : Carries stops x y) (hstops : ∀ kind, stops' kind = true → stops kind = true) :
    Carries stops' x y where
  error := h.error
  ends n s hx hs := h.ends n s hx (hstops _ hs)
  keeps := h.keeps

lemma trans (h : Carries stops x y) (h' : Carries stops y z) : Carries stops x z where
  error i hx := h'.error i (h.error i hx)
  ends n s hx hs := h'.ends n s (h.ends n s hx hs) hs
  keeps n s hz hn := h.keeps n s (h'.keeps n s hz hn) hn

/-- A part of an expression with what may stand behind it. -/
lemma bind (hends : ∀ n s, stops s.lookahead.kind = true → f n c s = .ok (n, s))
    (hkeeps : ∀ n s m t, f n c s = .ok (m, t) → m.isBare = true → m = n ∧ t = s) :
    Carries stops (p c r) ((p >>= f) c r) where
  error i h := by simp only [Bind.bind, h]
  ends n s h hs := by
    simp only [Bind.bind, h]
    exact hends n s hs
  keeps n s h hn := by
    obtain ⟨m, t, hp, hf⟩ := bind_eq_ok.1 h
    obtain ⟨rfl, rfl⟩ := hkeeps m t n s hf hn
    exact hp

/-- A loop that goes on with what it makes of an expression. -/
lemma loop {turn : Node → Parser (Turn Node Node)} {bound : Nat} (hbound : 0 < bound)
    (hends : ∀ n s, stops s.lookahead.kind = true → turn n c s = .ok (.done n, s))
    (hdone : ∀ n s m t, turn n c s = .ok (.done m, t) → m = n ∧ t = s)
    (hagain : ∀ n s m t, turn n c s = .ok (.again m, t) → m.isBare = false) :
    Carries stops (p c r) ((p >>= Parser.loop turn bound) c r) := by
  apply bind
  · intro n s hs
    obtain ⟨k, rfl⟩ := Nat.exists_eq_succ_of_ne_zero (Nat.ne_of_gt hbound)
    exact loop_of_done k (hends n s hs)
  · intro n s m t hrun hm
    obtain ⟨x, u, hinv, hlast⟩ := loop_eq_ok hrun
      (fun x u => x = n ∧ u = s ∨ x.isBare = false) (Or.inl ⟨rfl, rfl⟩)
      fun x u y v _ hturn => Or.inr (hagain x u y v hturn)
    obtain ⟨rfl, rfl⟩ := hdone x u m t hlast
    rcases hinv with hinv | hinv
    · exact hinv
    · rw [hinv] at hm
      cases hm

end Carries

section Stages

variable {c : Context} {r s : Reading} {g : Grammar} {calls : Bool} {n m : Node}

lemma Kind.ne_of_endsOperation {kind other : Kind} (h : kind.endsOperation = true)
    (hother : other.endsOperation = false) : kind ≠ other := by
  rintro rfl
  rw [h] at hother
  cases hother

lemma Kind.endsOperation_cases {kind : Kind} (h : kind.endsOperation = true) :
    kind = .endOfFile ∨ kind = .comma ∨ kind = .rParen ∨ kind = .assignment := by
  revert h
  cases kind <;> decide

lemma suffix_of_end (h : s.lookahead.kind.endsOperation = true) :
    g.suffix calls n c s = .ok (.done n, s) := by
  rcases Kind.endsOperation_cases h with h | h | h | h <;>
    simp only [Grammar.suffix, Bind.bind, lookahead, h] <;> rfl

lemma suffix_done (h : g.suffix calls n c r = .ok (.done m, s)) : m = n ∧ s = r := by
  unfold Grammar.suffix at h
  obtain ⟨t, u, hlook, hrest⟩ := bind_eq_ok.1 h
  cases hlook
  change Succeeds _ c r _ s at hrest
  split at hrest
  next =>
    obtain ⟨a, v, -, hrest⟩ := bind_eq_ok.1 hrest
    obtain ⟨b, w, -, hpure⟩ := bind_eq_ok.1 hrest
    cases hpure
  next =>
    obtain ⟨a, v, -, hpure⟩ := bind_eq_ok.1 hrest
    cases hpure
  next =>
    obtain ⟨a, v, -, hrest⟩ := bind_eq_ok.1 hrest
    obtain ⟨b, w, -, hpure⟩ := bind_eq_ok.1 hrest
    cases hpure
  next =>
    obtain ⟨a, v, -, hpure⟩ := bind_eq_ok.1 hrest
    cases hpure
  next =>
    cases hrest
    exact ⟨rfl, rfl⟩

lemma optionalSuffix_isBare (h : g.optionalSuffix n c r = .ok (m, s)) :
    m.isBare = false := by
  unfold Grammar.optionalSuffix at h
  obtain ⟨t, u, hlook, hrest⟩ := bind_eq_ok.1 h
  cases hlook
  change Succeeds _ c r _ s at hrest
  split at hrest
  all_goals
    obtain ⟨a, v, -, hpure⟩ := bind_eq_ok.1 hrest
    cases hpure
    rfl

lemma suffix_again (h : g.suffix calls n c r = .ok (.again m, s)) : m.isBare = false := by
  unfold Grammar.suffix at h
  obtain ⟨t, u, hlook, hrest⟩ := bind_eq_ok.1 h
  cases hlook
  change Succeeds _ c r _ s at hrest
  split at hrest
  next =>
    obtain ⟨a, v, -, hrest⟩ := bind_eq_ok.1 hrest
    obtain ⟨b, w, -, hpure⟩ := bind_eq_ok.1 hrest
    cases hpure
    rfl
  next =>
    obtain ⟨a, v, -, hpure⟩ := bind_eq_ok.1 hrest
    cases hpure
    rfl
  next =>
    obtain ⟨a, v, -, hrest⟩ := bind_eq_ok.1 hrest
    obtain ⟨b, w, hsuffix, hpure⟩ := bind_eq_ok.1 hrest
    cases hpure
    exact optionalSuffix_isBare hsuffix
  next =>
    obtain ⟨a, v, -, hpure⟩ := bind_eq_ok.1 hrest
    cases hpure
    rfl
  next => cases hrest

/-- Member accesses and calls behind an expression. -/
lemma suffixes_carries {p : Parser Node} (hbound : 0 < g.bound) :
    Carries Kind.endsOperation (p c r) ((p >>= g.suffixes true) c r) :=
  Carries.loop hbound (fun _ _ => suffix_of_end) (fun _ _ _ _ => suffix_done)
    fun _ _ _ _ => suffix_again

/-- One token behind an expression that makes something else of it. -/
lemma sees_carries {stops : Kind → Bool} {p : Parser Node} {kind : Kind} {f : Node → Parser Node}
    (hkind : stops kind = false)
    (hf : ∀ n s m t, f n c s = .ok (m, t) → m.isBare = false) :
    Carries stops (p c r)
      ((p >>= fun n => sees kind >>= fun b => if b = true then f n else pure n) c r) := by
  apply Carries.bind
  · intro n s hs
    have hne : s.lookahead.kind ≠ kind := by
      intro hsame
      rw [hsame, hkind] at hs
      cases hs
    rw [sees_of_ne hne]
    rfl
  · intro n s m t hrun hm
    obtain ⟨-, hrun⟩ | ⟨-, hrun⟩ := sees_eq_ok.1 hrun
    · rw [hf n s m t hrun] at hm
      cases hm
    · obtain ⟨rfl, rfl⟩ := pure_eq_ok.1 hrun
      exact ⟨rfl, rfl⟩

lemma suffixed_carries (hbound : 0 < g.bound) :
    Carries Kind.endsOperation (g.base c r) (g.suffixed c r) := by
  unfold Grammar.suffixed
  have hsuffixes : Carries Kind.endsOperation (g.base c r) ((g.base >>= g.suffixes true) c r) :=
    suffixes_carries hbound
  rw [← bind_assoc]
  refine hsuffixes.trans (sees_carries rfl ?_)
  intro n s m t hrun
  change Succeeds _ c s m t at hrun
  split at hrun
  next =>
    obtain ⟨a, v, -, hrest⟩ := bind_eq_ok.1 hrun
    obtain ⟨b, w, -, hpure⟩ := bind_eq_ok.1 hrest
    cases hpure
    rfl
  next => cases hrun

lemma power_carries : Carries Kind.endsOperation (g.unary c r) (g.power c r) := by
  unfold Grammar.power
  refine sees_carries rfl ?_
  intro n s m t hrun
  obtain ⟨a, u, -, hrest⟩ := bind_eq_ok.1 hrun
  obtain ⟨b, v, -, hrest⟩ := bind_eq_ok.1 hrest
  obtain ⟨d, w, -, hpure⟩ := bind_eq_ok.1 hrest
  cases hpure
  rfl

/-- The operators of a level make an operation of their operands. -/
def OperatorLevel.MakesOperation (level : OperatorLevel) : Prop :=
  ∀ text join left right, level.join? text = some join →
    (join left right : Node).isBare = false

lemma leftGrouped_carries {level : OperatorLevel} {p : Parser Node} (hbound : 0 < g.bound)
    (hkind : level.kind.endsOperation = false) (hmakes : level.MakesOperation) :
    Carries Kind.endsOperation (p c r) (g.leftGrouped level p c r) := by
  unfold Grammar.leftGrouped
  apply Carries.loop hbound
  · intro n s hs
    unfold Grammar.nextOperand
    rw [sees_of_ne (Kind.ne_of_endsOperation hs hkind)]
    rfl
  · intro n s m t hrun
    unfold Grammar.nextOperand at hrun
    obtain ⟨-, hrun⟩ | ⟨-, hrun⟩ := sees_eq_ok.1 hrun
    · obtain ⟨a, u, -, hrest⟩ := bind_eq_ok.1 hrun
      obtain ⟨b, v, -, hrest⟩ := bind_eq_ok.1 hrest
      obtain ⟨d, w, -, hpure⟩ := bind_eq_ok.1 hrest
      cases hpure
    · cases hrun
      exact ⟨rfl, rfl⟩
  · intro n s m t hrun
    unfold Grammar.nextOperand at hrun
    obtain ⟨-, hrun⟩ | ⟨-, hrun⟩ := sees_eq_ok.1 hrun
    · obtain ⟨a, u, -, hrest⟩ := bind_eq_ok.1 hrun
      obtain ⟨join, v, hjoin, hrest⟩ := bind_eq_ok.1 hrest
      obtain ⟨right, w, -, hpure⟩ := bind_eq_ok.1 hrest
      cases hpure
      obtain ⟨hfound, -⟩ := spelled_eq_ok.1 hjoin
      exact hmakes _ _ _ _ hfound
    · cases hrun

lemma makesOperation_of_mem :
    ∀ level ∈ OperatorLevel.all, level.kind.endsOperation = false ∧ level.MakesOperation := by
  have hbinary : ∀ kind, (OperatorLevel.binary kind).MakesOperation := by
    intro kind text join left right h
    obtain ⟨operator, -, rfl⟩ := Option.map_eq_some_iff.1 h
    rfl
  have hlogical : ∀ kind, (OperatorLevel.logical kind).MakesOperation := by
    intro kind text join left right h
    obtain ⟨operator, -, rfl⟩ := Option.map_eq_some_iff.1 h
    rfl
  simp only [OperatorLevel.all, List.forall_mem_cons]
  and_intros
  all_goals first
    | exact hbinary _
    | exact hlogical _
    | exact List.forall_mem_nil _
    | decide

lemma operation_carries (hbound : 0 < g.bound) :
    Carries Kind.endsOperation (g.power c r) (g.operation c r) := by
  have hlevels : ∀ levels : List OperatorLevel,
      (∀ level ∈ levels, level.kind.endsOperation = false ∧ level.MakesOperation) →
      Carries Kind.endsOperation (g.power c r) (levels.foldr g.leftGrouped g.power c r) := by
    intro levels
    induction levels with
    | nil => exact fun _ => Carries.refl _
    | cons level levels ih =>
      intro h
      obtain ⟨hkind, hmakes⟩ := h level List.mem_cons_self
      refine (ih fun l hl => h l (List.mem_cons_of_mem level hl)).trans ?_
      exact leftGrouped_carries hbound hkind hmakes
  exact hlevels _ makesOperation_of_mem

lemma operation_carries_unary (hbound : 0 < g.bound) :
    Carries Kind.endsOperation (g.unary c r) (g.operation c r) :=
  power_carries.trans (operation_carries hbound)

/-- Only the end of the source ends every expression. -/
def Kind.isEnd (kind : Kind) : Bool :=
  kind == .endOfFile

lemma Kind.endsOperation_of_isEnd (kind : Kind) (h : kind.isEnd = true) :
    kind.endsOperation = true := by
  rw [beq_iff_eq.1 h]
  rfl

lemma assignment_carries : Carries Kind.isEnd (g.operation c r) (g.assignment c r) := by
  unfold Grammar.assignment
  apply Carries.bind
  · intro n s hs
    simp only [Bind.bind, lookahead, beq_iff_eq.1 hs]
    rfl
  · intro n s m t hrun hm
    obtain ⟨next, u, hlook, hrest⟩ := bind_eq_ok.1 hrun
    cases hlook
    change Succeeds _ c s m t at hrest
    split at hrest
    next =>
      split at hrest
      next =>
        obtain ⟨a, u, -, hrest⟩ := bind_eq_ok.1 hrest
        obtain ⟨b, v, -, hrest⟩ := bind_eq_ok.1 hrest
        obtain ⟨d, w, -, hrest⟩ := bind_eq_ok.1 hrest
        change Succeeds _ c w m t at hrest
        split at hrest <;> cases hrest <;> cases hm
      next => cases hrest
    next =>
      cases hrest
      exact ⟨rfl, rfl⟩

/-- The kinds of tokens that begin an operand with no operator in front. -/
def Kind.opensOperand : Kind → Bool
  | backtick | lParen | lBrace | identifier | kwYield | number => true
  | _ => false

/-- Levels of nesting are entered in front of an operand. -/
lemma unary_carries (hbound : 0 < g.bound) (hdepth : c.depth < c.limit)
    (hkind : r.lookahead.kind.opensOperand = true) :
    Carries Kind.endsOperation (g.primary { c with depth := c.depth + 1 } r) (g.unary c r) := by
  have hcases : r.lookahead.kind = .backtick ∨ r.lookahead.kind = .lParen ∨
      r.lookahead.kind = .lBrace ∨ r.lookahead.kind = .identifier ∨
      r.lookahead.kind = .kwYield ∨ r.lookahead.kind = .number := by
    revert hkind
    cases r.lookahead.kind <;> decide
  have hunary : g.unary c r = g.operand { c with depth := c.depth + 1 } r := by
    unfold Grammar.unary
    rw [nested_of_lt hdepth]
  have hoperand : ∀ d, g.operand d r = g.suffixed d r := by
    intro d
    rcases hcases with h | h | h | h | h | h <;> simp only [Grammar.operand, Bind.bind, lookahead, h]
  have hbase : ∀ d, g.base d r = g.primary d r := by
    intro d
    rcases hcases with h | h | h | h | h | h <;>
      simp [Grammar.base, Bind.bind, sees, Pure.pure, lookahead, h]
  rw [← hbase, hunary, hoperand]
  exact suffixed_carries hbound

/-- The kinds of tokens that begin only primary expressions, and no statement of their own. -/
def Kind.opensPrimary : Kind → Bool
  | backtick | lParen => true
  | _ => false

lemma Kind.opensPrimary_cases {kind : Kind} (h : kind.opensPrimary = true) :
    kind = .backtick ∨ kind = .lParen := by
  cases kind <;> first | exact Or.inl rfl | exact Or.inr rfl | cases h

/-- An expression with an operand in front. -/
lemma sequence_carries_unary (hbound : 0 < g.bound)
    (hkind : r.lookahead.kind.opensPrimary = true) :
    Carries Kind.isEnd (g.unary c r) (g.sequence c r) := by
  have helement : g.element c r = g.assignment c r := by
    rcases Kind.opensPrimary_cases hkind with h | h <;>
      simp [Grammar.element, Bind.bind, sees, Pure.pure, lookahead, h]
  have hoperation : Carries Kind.isEnd (g.unary c r) (g.operation c r) :=
    (operation_carries_unary hbound).narrow Kind.endsOperation_of_isEnd
  have hfirst : Carries Kind.isEnd (g.unary c r) (g.element c r) := by
    rw [helement]
    exact hoperation.trans assignment_carries
  refine hfirst.trans ?_
  unfold Grammar.sequence
  refine sees_carries rfl ?_
  intro n s m t hrun
  obtain ⟨body, u, -, hlast⟩ := loop_eq_ok hrun (fun _ _ => True) trivial
    fun _ _ _ _ _ _ => trivial
  unfold Grammar.nextInSequence at hlast
  obtain ⟨b, v, -, hlast⟩ := bind_eq_ok.1 hlast
  change Succeeds _ c v _ t at hlast
  split at hlast
  next =>
    obtain ⟨e, w, -, hpure⟩ := bind_eq_ok.1 hlast
    cases hpure
  next =>
    cases hlast
    rfl

lemma sequence_carries (hbound : 0 < g.bound) (hdepth : c.depth < c.limit)
    (hkind : r.lookahead.kind.opensPrimary = true) :
    Carries Kind.isEnd (g.primary { c with depth := c.depth + 1 } r) (g.sequence c r) := by
  have hopens : r.lookahead.kind.opensOperand = true := by
    rcases Kind.opensPrimary_cases hkind with h | h <;> rw [h] <;> rfl
  exact ((unary_carries hbound hdepth hopens).narrow Kind.endsOperation_of_isEnd).trans
    (sequence_carries_unary hbound hkind)

end Stages

section Programs

variable {c : Context} {r s : Reading} {k : Nat} {n : Node}

lemma primary_of_lParen {g : Grammar} (h : r.lookahead.kind = .lParen) :
    g.primary c r = g.parenthesized c r := by
  simp only [Grammar.primary, Bind.bind, lookahead, h]

lemma statement_eq {g : Grammar} (hdepth : c.depth < c.limit)
    (hkind : r.lookahead.kind.opensPrimary = true) :
    g.statement c r = g.expressionStatement { c with depth := c.depth + 1 } r := by
  unfold Grammar.statement
  rw [nested_of_lt hdepth]
  rcases Kind.opensPrimary_cases hkind with h | h <;>
    simp only [Grammar.statementKind, Bind.bind, lookahead, h]

lemma programLoop_end {g : Grammar} (bound : Nat) (body : List Node)
    (h : r.lookahead.kind = .endOfFile) :
    loop g.nextInProgram (bound + 1) body c r = .ok (.program body.reverse, r) := by
  have hturn : g.nextInProgram body c r = .ok (.done (.program body.reverse), r) := by
    unfold Grammar.nextInProgram
    rw [sees_of_eq h]
    rfl
  exact loop_of_done bound hturn

lemma programLoop_step {g : Grammar} (bound : Nat) (body : List Node)
    (h : r.lookahead.kind ≠ .endOfFile) :
    loop g.nextInProgram (bound + 1) body c r =
      (g.parse .statement >>= fun n => loop g.nextInProgram bound (n :: body)) c r := by
  have hturn : g.nextInProgram body c r =
      (g.parse .statement >>= fun n => pure (.again (n :: body))) c r := by
    unfold Grammar.nextInProgram
    rw [sees_of_ne h]
  rw [loop, bind_congr_run hturn]
  simp only [bind_assoc, pure_bind]

lemma Kind.ne_endOfFile_of_opensPrimary {kind : Kind} (h : kind.opensPrimary = true) :
    kind ≠ .endOfFile := by
  rintro rfl
  cases h

lemma programLoop_length {g : Grammar} {bound : Nat} {body result : List Node} {t : Reading}
    (h : loop g.nextInProgram bound body c r = .ok (.program result, t)) :
    body.length ≤ result.length := by
  induction bound generalizing body r with
  | zero => cases h
  | succ bound ih =>
    by_cases hend : r.lookahead.kind = .endOfFile
    · rw [programLoop_end bound body hend] at h
      cases h
      rw [List.length_reverse]
    · rw [programLoop_step bound body hend] at h
      obtain ⟨m, u, -, hloop⟩ := bind_eq_ok.1 h
      exact Nat.le_of_succ_le (ih hloop)

/-- Behind the only statement of a program is its end. -/
lemma only_statement {g : Grammar} {bound : Nat} {m : Node} {t : Reading}
    (h : loop g.nextInProgram bound [m] c r = .ok (.program [n], t)) :
    m = n ∧ r.lookahead.kind = .endOfFile := by
  cases bound with
  | zero => cases h
  | succ bound =>
    by_cases hend : r.lookahead.kind = .endOfFile
    · rw [programLoop_end bound [m] hend] at h
      cases h
      exact ⟨rfl, hend⟩
    · rw [programLoop_step bound [m] hend] at h
      obtain ⟨m', u, -, hloop⟩ := bind_eq_ok.1 h
      -- a further statement would be in the program too
      have hlength := programLoop_length hloop
      simp at hlength

/-- A primary expression is a whole program. -/
theorem program_of_primary (hk : 0 < k) (hdepth : c.depth + 1 < c.limit)
    (hkind : r.lookahead.kind.opensPrimary = true)
    (hrun : (Grammar.upTo k).primary { c with depth := c.depth + 2 } r = .ok (n, s))
    (hend : s.lookahead.kind = .endOfFile) :
    (Grammar.upTo (k + 1)).program c r = .ok (.program [n], s) := by
  have hsequence : (Grammar.upTo k).sequence { c with depth := c.depth + 1 } r = .ok (n, s) :=
    (sequence_carries hk hdepth hkind).ends n s hrun (beq_iff_eq.2 hend)
  have hstatement : (Grammar.upTo k).statement c r = .ok (n, s) := by
    rw [statement_eq (by omega) hkind]
    have hsemicolon : s.lookahead.kind ≠ .semicolon := by simp [hend]
    simp only [Grammar.expressionStatement, Bind.bind, hsequence, accept_of_ne hsemicolon]
    rfl
  unfold Grammar.program
  change loop _ (k + 1) [] c r = _
  rw [programLoop_step k [] (Kind.ne_endOfFile_of_opensPrimary hkind)]
  change ((Grammar.upTo k).statement >>= _) c r = _
  obtain ⟨j, rfl⟩ := Nat.exists_eq_succ_of_ne_zero (Nat.ne_of_gt hk)
  simp only [Bind.bind, hstatement]
  exact programLoop_end j [n] hend

/-- A program whose first expression is refused is refused. -/
theorem program_of_error {i : Interrupt} (hk : 0 < k) (hdepth : c.depth + 1 < c.limit)
    (hkind : r.lookahead.kind.opensPrimary = true)
    (hrun : (Grammar.upTo k).primary { c with depth := c.depth + 2 } r = .error i) :
    (Grammar.upTo (k + 1)).program c r = .error i := by
  have hsequence : (Grammar.upTo k).sequence { c with depth := c.depth + 1 } r = .error i :=
    (sequence_carries hk hdepth hkind).error i hrun
  have hstatement : (Grammar.upTo k).statement c r = .error i := by
    rw [statement_eq (by omega) hkind]
    simp only [Grammar.expressionStatement, Bind.bind, hsequence]
  unfold Grammar.program
  change loop _ (k + 1) [] c r = _
  rw [programLoop_step k [] (Kind.ne_endOfFile_of_opensPrimary hkind)]
  change ((Grammar.upTo k).statement >>= _) c r = _
  simp only [Bind.bind, hstatement]

/-- A program that begins with a primary expression takes two levels of nesting. -/
lemma lt_limit_of_program {tree : Node} {t : Reading} (hk : 0 < k)
    (hkind : r.lookahead.kind.opensPrimary = true)
    (hrun : (Grammar.upTo (k + 1)).program c r = .ok (tree, t)) : c.depth + 1 < c.limit := by
  by_contra hdepth
  have hstatement : ∃ i, (Grammar.upTo k).statement c r = .error i := by
    by_cases hlimit : c.depth < c.limit
    · have hunary : (Grammar.upTo k).unary { c with depth := c.depth + 1 } r =
          .error (.rejected (.nestingTooDeep c.limit r.lookahead.span)) :=
        nested_of_le (show c.limit ≤ c.depth + 1 by omega)
      have hsequence := (sequence_carries_unary hk hkind).error _ hunary
      rw [statement_eq hlimit hkind]
      simp only [Grammar.expressionStatement, Bind.bind, hsequence]
      exact ⟨_, rfl⟩
    · exact ⟨_, nested_of_le (Nat.le_of_not_lt hlimit)⟩
  obtain ⟨i, hstatement⟩ := hstatement
  unfold Grammar.program at hrun
  change loop _ (k + 1) [] c r = _ at hrun
  rw [programLoop_step k [] (Kind.ne_endOfFile_of_opensPrimary hkind)] at hrun
  change ((Grammar.upTo k).statement >>= _) c r = _ at hrun
  simp only [Bind.bind, hstatement] at hrun
  cases hrun

/-- Behind a primary expression that is a whole program there is at most a semicolon. -/
theorem primary_of_program {t : Reading} (hk : 0 < k) (hdepth : c.depth + 1 < c.limit)
    (hkind : r.lookahead.kind.opensPrimary = true) (hn : n.isBare = true)
    (hrun : (Grammar.upTo (k + 1)).program c r = .ok (.program [n], t)) :
    ∃ s, (Grammar.upTo k).primary { c with depth := c.depth + 2 } r = .ok (n, s) ∧
      (s.lookahead.kind = .endOfFile ∨ s.lookahead.kind = .semicolon ∧
        ∃ token after, s.cursor.next = (.ok token, after) ∧ token.kind = .endOfFile) := by
  unfold Grammar.program at hrun
  change loop _ (k + 1) [] c r = _ at hrun
  rw [programLoop_step k [] (Kind.ne_endOfFile_of_opensPrimary hkind)] at hrun
  obtain ⟨m, u, hstatement, hloop⟩ := bind_eq_ok.1 hrun
  obtain ⟨rfl, hend⟩ := only_statement hloop
  change (Grammar.upTo k).statement c r = _ at hstatement
  rw [statement_eq (by omega) hkind] at hstatement
  unfold Grammar.expressionStatement at hstatement
  obtain ⟨e, s, hsequence, hrest⟩ := bind_eq_ok.1 hstatement
  obtain ⟨b, v, hsemicolon, hpure⟩ := bind_eq_ok.1 hrest
  obtain ⟨rfl, rfl⟩ := pure_eq_ok.1 hpure
  refine ⟨s, (sequence_carries hk hdepth hkind).keeps _ _ hsequence hn, ?_⟩
  rcases accept_eq_ok hsemicolon with ⟨-, rfl⟩ | ⟨-, hkind, token, after, hnext, rfl⟩
  · exact Or.inl hend
  · exact Or.inr ⟨hkind, token, after, hnext, hend⟩

end Programs

end ScriptTree
